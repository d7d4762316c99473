/-
# What is noted while pricing

Pricing writes into a journal and never looks into it. What a calculation gives, and the notes that it
adds, are the same whatever the journal holds (`Writes`), so a journal only grows and two journals that
differ go on differing in the same place. No note of a price is about a rule left out (`Note.IsOfPrice`):
such notes are made by the pass itself, when it skips a rule.

| calculation | notes |
| --- | --- |
| `Sources.resolve` | what was done to find the number, or a warning that there is none |
| `Rule.byFormula` | those of its names, the filled text, and why it failed |
| `Rule.byMethod` | a quantity, a discount, an unknown method |
| `Quote.ofPass` | those of the reported names, the minimum fees and totals, or that there is no pricing |
-/

import Tariff.Pricing.Quote
import Tariff.Proofs.Outcome
import Tariff.Proofs.Pricing.Lookup

namespace Tariff

/-- One thing to put into a journal. -/
inductive Note where
  | entry (e : Entry)
  | warning (text : String)

namespace Journal

/-- Put one thing into a journal. -/
def add (j : Journal) : Note → Journal
  | .entry e => j.record [e]
  | .warning text => j.warn text

/-- Put several things into a journal, one after the other. -/
def addAll (j : Journal) (notes : List Note) : Journal := notes.foldl add j

theorem addAll_append (j : Journal) (notes more : List Note) :
    j.addAll (notes ++ more) = (j.addAll notes).addAll more :=
  List.foldl_append

theorem record_append (j : Journal) (es fs : List Entry) : j.record (es ++ fs) = (j.record es).record fs := by
  simp [record]

/-- Recording entries is adding notes that are entries. -/
theorem record_eq_addAll (j : Journal) (es : List Entry) : j.record es = j.addAll (es.map .entry) := by
  induction es generalizing j with
  | nil => simp [record, addAll]
  | cons e es ih =>
    rw [← List.singleton_append, record_append, ih]
    rfl

/-- Adding notes takes nothing away. -/
theorem extends_addAll (j : Journal) (notes : List Note) : j.Extends (j.addAll notes) := by
  induction notes generalizing j with
  | nil => exact j.extends_refl
  | cons note notes ih =>
    refine Extends.trans ?_ (ih (j.add note))
    cases note with
    | entry e => exact j.extends_record [e]
    | warning text => exact j.extends_warn text

/-- A warning that is given is among the warnings, whether it was there before or not. -/
theorem mem_warnings_warn (j : Journal) (text : String) : text ∈ (j.warn text).warnings := by
  unfold warn
  split
  · rename_i h
    exact List.contains_iff_mem.1 h
  · simp

end Journal

/-! ### Notes about rules left out -/

/-- The step of an entry about a rule left out. -/
def skipStep : String := "Skip"

/-- What a warning about a second rule with an id begins with. -/
def duplicateMark : String := "Duplicate rule id '"

/-- Whether a warning is about a second rule with an id. -/
def isDuplicateWarning (text : String) : Bool := duplicateMark.toList.isPrefixOf text.toList

/-- An entry gives a figure: it is about no rule, nor about one left out. -/
def Entry.IsFigure (e : Entry) : Prop := e.ruleId = none ∧ e.step ≠ skipStep

/-- A note is not about a rule left out. -/
def Note.IsOfPrice : Note → Prop
  | .entry e => e.step ≠ skipStep
  | .warning text => isDuplicateWarning text = false

/-- A warning that begins with another character is about something else. -/
theorem isDuplicateWarning_append {start : String} {c : Char} (h : start.toList.head? = some c)
    (hc : c ≠ 'D') (rest : String) : isDuplicateWarning (start ++ rest) = false := by
  obtain ⟨cs, hcs⟩ : ∃ cs, start.toList = c :: cs := by
    cases hs : start.toList with
    | nil => simp [hs] at h
    | cons d cs =>
      rw [hs, List.head?_cons, Option.some.injEq] at h
      exact ⟨cs, by rw [h]⟩
  have hmark : duplicateMark.toList = 'D' :: duplicateMark.toList.tail := by decide
  rw [isDuplicateWarning, String.toList_append, hcs, hmark, List.cons_append]
  simp [List.isPrefixOf, Ne.symm hc]

/-- The warning about a name is none about a rule that comes again. -/
theorem isDuplicateWarning_message (u : Unresolved) : isDuplicateWarning u.message = false := by
  cases u with
  | unknown name =>
    simp only [Unresolved.message, String.append_assoc]
    exact isDuplicateWarning_append (c := 'V') (by decide) (by decide) _
  | notPriced name id =>
    simp only [Unresolved.message, String.append_assoc]
    exact isDuplicateWarning_append (c := 'P') (by decide) (by decide) _

/-! ### Calculations that write -/

/-- A calculation only writes into its journal: what it gives, and the notes that it adds, do not depend on
what the journal holds. `put` puts together what it gives and the journal after it. -/
def Writes {α β : Type} (put : α → Journal → β) (run : Journal → Except Halt β) : Prop :=
  ∃ written : Except Halt (α × List Note),
    (∀ a notes, written = .ok (a, notes) → ∀ n ∈ notes, n.IsOfPrice) ∧
      ∀ j, run j = written.map fun w => put w.1 (j.addAll w.2)

namespace Writes

variable {α β γ : Type} {put : α → Journal → β} {run : Journal → Except Halt β}

/-- An action that adds notes of prices writes just these, to whatever journal. -/
theorem of_notes (put : α → Journal → β) (a : α) (notes : List Note) (h : ∀ n ∈ notes, n.IsOfPrice) :
    Writes put fun j => .ok (put a (j.addAll notes)) := by
  refine ⟨.ok (a, notes), ?_, fun j => rfl⟩
  rintro _ _ ⟨⟩
  exact h

theorem of_unchanged (a : α) : Writes put fun j => .ok (put a j) :=
  of_notes put a [] (by simp)

/-- An action that records entries of prices writes just these. -/
theorem of_entries (put : α → Journal → β) (a : α) {es : List Entry}
    (h : ∀ e ∈ es, e.step ≠ skipStep) : Writes put fun j => .ok (put a (j.record es)) := by
  simp only [Journal.record_eq_addAll]
  refine of_notes put a _ fun n hn => ?_
  obtain ⟨e, he, rfl⟩ := List.mem_map.1 hn
  exact h e he

/-- An action that records entries and gives a warning writes just that. -/
theorem of_entries_warning (put : α → Journal → β) (a : α) {es : List Entry}
    (h : ∀ e ∈ es, e.step ≠ skipStep) {text : String} (htext : isDuplicateWarning text = false) :
    Writes put fun j => .ok (put a ((j.record es).warn text)) := by
  have hnotes (j : Journal) : (j.record es).warn text = j.addAll (es.map .entry ++ [.warning text]) := by
    rw [Journal.addAll_append, ← Journal.record_eq_addAll]
    rfl
  simp only [hnotes]
  refine of_notes put a _ fun n hn => ?_
  rcases List.mem_append.1 hn with hn | hn
  · obtain ⟨e, he, rfl⟩ := List.mem_map.1 hn
    exact h e he
  · obtain rfl := List.mem_singleton.1 hn
    exact htext

theorem of_halt (h : Halt) : Writes put fun _ => .error h := ⟨.error h, nofun, fun _ => rfl⟩

/-- Notes made first. -/
theorem after_notes (h : Writes put run) {notes : List Note} (hnotes : ∀ n ∈ notes, n.IsOfPrice) :
    Writes put fun j => run (j.addAll notes) := by
  obtain ⟨written, hwritten, hrun⟩ := h
  refine ⟨written.map fun w => (w.1, notes ++ w.2), ?_, fun j => ?_⟩
  · rintro a more hok n hn
    cases written with
    | error => simp [Except.map] at hok
    | ok w =>
      obtain ⟨rfl, rfl⟩ := Prod.mk.inj (Except.ok.inj hok)
      exact (List.mem_append.1 hn).elim (hnotes n) (hwritten _ _ rfl n)
  · dsimp only
    rw [hrun]
    cases written with
    | error => rfl
    | ok w => simp [Except.map, Journal.addAll_append]

/-- One calculation after another. -/
theorem bind {first : Journal → Except Halt (γ × Journal)} {next : γ × Journal → Except Halt β}
    (h : Writes Prod.mk first) (hnext : ∀ c, Writes put fun j => next (c, j)) :
    Writes put fun j => first j >>= next := by
  obtain ⟨written, hwritten, hfirst⟩ := h
  obtain rfl : first = _ := funext hfirst
  cases written with
  | error halt => exact of_halt halt
  | ok w => exact (hnext w.1).after_notes (hwritten _ _ rfl)

/-- A calculation that needs no journal comes first. -/
theorem bind_of_pure {x : Except Halt γ} {next : γ → Journal → Except Halt β}
    (h : ∀ c, x = .ok c → Writes put (next c)) : Writes put fun j => x >>= fun c => next c j := by
  cases x with
  | error halt => exact of_halt halt
  | ok c => exact h c rfl

/-- **What is given and noted at one journal is given and noted at every other.** So an action can be run at the
empty journal to see what it will write. -/
theorem exists_notes (h : Writes put run) {j : Journal} {b : β} (hok : run j = .ok b) :
    ∃ a notes, (∀ n ∈ notes, n.IsOfPrice) ∧ b = put a (j.addAll notes) ∧
      ∀ k : Journal, run k = .ok (put a (k.addAll notes)) := by
  obtain ⟨written, hwritten, hrun⟩ := h
  rw [hrun] at hok
  cases written with
  | error => simp [Except.map] at hok
  | ok w => exact ⟨w.1, w.2, hwritten _ _ rfl, (Except.ok.inj hok).symm, hrun⟩

end Writes

/-! ### What the calculations of a price write -/

namespace Ledger

/-- The entries about a total are figures. -/
theorem isFigure_of_serviceTotal {l : Ledger} {service : String} {f : Filter} {total : Binary64}
    {entries : List Entry} (h : l.serviceTotal service f = .ok (total, entries)) : ∀ e ∈ entries, e.IsFigure := by
  obtain ⟨sum, -, h⟩ := bind_eq_ok_iff.1 h
  dsimp only at h
  split at h
  · obtain ⟨-, rfl⟩ := Prod.mk.inj (Except.ok.inj h)
    simp [figure, Entry.IsFigure, skipStep]
  · obtain ⟨-, rfl⟩ := Prod.mk.inj (Except.ok.inj h)
    simp [figure, Entry.IsFigure, skipStep]

/-- The entries about the recurring rate are figures. -/
theorem isFigure_of_recurringRate {l : Ledger} {tag : String} {fallback rate : Binary64}
    {entries : List Entry} (h : l.recurringRate tag fallback = .ok (rate, entries)) : ∀ e ∈ entries, e.IsFigure := by
  unfold recurringRate at h
  dsimp only at h
  split at h
  · obtain ⟨sum, -, h⟩ := bind_eq_ok_iff.1 h
    obtain ⟨-, rfl⟩ := Prod.mk.inj (Except.ok.inj h)
    simp [figure, Entry.IsFigure, skipStep]
  · obtain ⟨-, rfl⟩ := Prod.mk.inj (Except.ok.inj h)
    simp [figure, Entry.IsFigure, skipStep]

end Ledger

namespace Sources

/-- Whatever a name stands for, the entries about it are figures. -/
theorem isFigure_of_find {s : Sources} {name : String} {found : Found} (h : s.find name = .ok found) :
    ∀ e ∈ found.entries, e.IsFigure := by
  cases s.place name with
  | reference hrule =>
    rw [find_of_reference hrule] at h
    split at h
    · obtain rfl := Except.ok.inj h
      simp
    · simp at h
  | rate hrule hname =>
    rw [find_of_rate hrule hname] at h
    split at h
    · rename_i hrate
      obtain rfl := Except.ok.inj h
      exact Ledger.isFigure_of_recurringRate hrate
    · simp at h
  | total hrule hname hrow =>
    rw [find_of_total hrule hname hrow] at h
    split at h
    · rename_i htotal
      obtain rfl := Except.ok.inj h
      exact Ledger.isFigure_of_serviceTotal htotal
    · simp at h
  | answer hname =>
    rw [find_of_answer hname] at h
    split at h
    · obtain rfl := Except.ok.inj h
      simp
    · simp at h
    · simp at h

/-- **Looking a name up writes the same to any journal**, so a journal with more in it does not change what is
found. -/
theorem writes_resolve (s : Sources) (name : String) (ruleId : Option String) :
    Writes Prod.mk (s.resolve name ruleId) := by
  rw [funext (s.resolve_eq name ruleId)]
  cases hfind : s.find (trim name) with
  | ok found =>
    refine Writes.of_entries Prod.mk found.value fun e he => ?_
    rcases List.mem_append.1 he with he | he
    · exact (isFigure_of_find hfind e he).2
    · rw [List.mem_singleton.1 he]
      simp [skipStep]
  | error fault =>
    cases fault with
    | halt halt => exact .of_halt halt
    | unresolved u =>
      refine Writes.of_notes Prod.mk Binary64.zero [.warning u.message,
        .entry ⟨u.kind, braced name ++ " defaulted", some "0", ruleId⟩] ?_
      have hkind : u.kind ≠ skipStep := by cases u <;> simp [Unresolved.kind, skipStep]
      simp [Note.IsOfPrice, isDuplicateWarning_message u, hkind]

/-- So does looking up all names of a formula. -/
theorem writes_resolveAll (s : Sources) (ruleId : Option String) (names : List String) :
    Writes Prod.mk (s.resolveAll ruleId names) := by
  induction names with
  | nil => exact .of_unchanged []
  | cons name names ih =>
    refine (s.writes_resolve name ruleId).bind fun x => ?_
    exact ih.bind fun xs => .of_unchanged ((name, x) :: xs)

end Sources

namespace Rule

/-- A raw price and its outcome, with the journal after it. -/
def putRaw (priced : Binary64 × Outcome) (j : Journal) : Raw := ⟨priced.1, priced.2, j⟩

/-- So does pricing by formula. -/
theorem writes_byFormula (r : Rule) (s : Sources) : Writes putRaw (r.byFormula s) := by
  unfold byFormula
  dsimp only
  split
  · exact Writes.of_entries putRaw (Binary64.zero, Outcome.evaluated) (by simp [entry, skipStep])
  refine (s.writes_resolveAll _ _).bind fun values => ?_
  dsimp only
  split
  · rename_i x _
    exact Writes.of_entries putRaw (x, Outcome.evaluated) (by simp [entry, skipStep])
  · rename_i f _
    refine Writes.of_notes putRaw (Binary64.zero, Outcome.failed) [
      .entry (r.entry "Formula" (Formula.fill values (trim r.formula)) none),
      .warning ("Rule '" ++ r.id ++ "' failed: " ++ f.message (Formula.fill values (trim r.formula))),
      .entry (r.entry f.kind (f.message (Formula.fill values (trim r.formula))) (some "0"))] ?_
    have hkind : f.kind ≠ skipStep := by cases f <;> simp [Formula.Failure.kind, skipStep]
    have hwarning : isDuplicateWarning ("Rule '" ++ r.id ++ "' failed: " ++
        f.message (Formula.fill values (trim r.formula))) = false := by
      simp only [String.append_assoc]
      exact isDuplicateWarning_append (c := 'R') (by decide) (by decide) _
    have hformula : "Formula" ≠ skipStep := by decide
    simp [Note.IsOfPrice, entry, hkind, hwarning, hformula]

/-- The entries of a price per unit are of that step. -/
theorem step_of_byUnit {r : Rule} {answers : Json} {price : Binary64} {entries : List Entry}
    (h : r.byUnit answers = .ok (price, entries)) : ∀ e ∈ entries, e.step = "Per Unit" := by
  unfold byUnit at h
  split at h
  · obtain ⟨quantity, -, h⟩ := bind_eq_ok_iff.1 h
    obtain ⟨-, rfl⟩ := Prod.mk.inj (Except.ok.inj h)
    simp [entry]
  · obtain ⟨-, rfl⟩ := Prod.mk.inj (Except.ok.inj h)
    simp [entry]

/-- Pricing in full writes the same to any journal. -/
theorem writes_undiscounted (r : Rule) (answers : Json) : Writes Prod.mk (r.undiscounted answers) := by
  unfold undiscounted
  split
  · have hnext (priced : Binary64 × List Entry) (hpriced : r.byUnit answers = .ok priced) :
        Writes Prod.mk fun j => .ok (priced.1, j.record priced.2) := by
      refine .of_entries Prod.mk priced.1 fun e he => ?_
      rw [step_of_byUnit hpriced e he]
      decide
    exact Writes.bind_of_pure hnext
  · exact .of_unchanged r.basePrice
  · refine Writes.of_notes Prod.mk r.basePrice [.warning ("Rule '" ++ r.id ++
      "' has unknown calculation method '" ++ r.method ++ "', using base price")] ?_
    have hwarning : isDuplicateWarning ("Rule '" ++ r.id ++ "' has unknown calculation method '" ++
        r.method ++ "', using base price") = false := by
      simp only [String.append_assoc]
      exact isDuplicateWarning_append (c := 'R') (by decide) (by decide) _
    simpa [Note.IsOfPrice] using hwarning

/-- So does pricing with the discount taken off. -/
theorem writes_byMethod (r : Rule) (setting : Setting) : Writes putRaw (r.byMethod setting) := by
  refine (r.writes_undiscounted setting.answers).bind fun price => ?_
  dsimp only
  split
  · refine Writes.of_entries putRaw (_, Outcome.evaluated) ?_
    simp [entry, skipStep]
  · exact .of_unchanged (price, Outcome.evaluated)

/-- **Pricing a rule writes the same to any journal**, by whatever method. -/
theorem writes_raw (r : Rule) (setting : Setting) (ledger : Ledger) :
    Writes putRaw (r.raw setting ledger) := by
  unfold raw
  split
  · exact r.writes_byFormula _
  · exact r.writes_byMethod setting

end Rule

namespace Breakdown

/-- Raising the columns of a line notes minimum fees. -/
theorem step_ne_of_raise {rows : List Service} {service : String} {acc : Fees × List Entry}
    (h : ∀ e ∈ acc.2, e.step ≠ skipStep) :
    ∀ e ∈ (rows.foldl (raise service) acc).2, e.step ≠ skipStep := by
  induction rows generalizing acc with
  | nil => exact h
  | cons row rows ih =>
    refine ih ?_
    unfold raise
    dsimp only
    split
    · split
      · intro e he
        rcases List.mem_append.1 he with he | he
        · exact h e he
        · rw [List.mem_singleton.1 he]
          simp [Ledger.figure, skipStep]
      · exact h
    · exact h

/-- The entries about a line say nothing of a rule that was left out. -/
theorem step_ne_of_line? {rows : List Service} {prices : List Price} {service title : String}
    {line : Line} {entries : List Entry} (h : line? rows prices service title = .ok (some (line, entries))) :
    ∀ e ∈ entries, e.step ≠ skipStep := by
  unfold line? at h
  dsimp only at h
  split at h
  · simp at h
  · obtain ⟨fees, -, h⟩ := bind_eq_ok_iff.1 h
    obtain ⟨year, -, h⟩ := bind_eq_ok_iff.1 h
    obtain ⟨-, rfl⟩ := Prod.mk.inj (Option.some.inj (Except.ok.inj h))
    exact step_ne_of_raise nofun

/-- Nor do those about all lines. -/
theorem step_ne_of_lines {rows : List Service} {prices : List Price} {titled : List (String × String)}
    {found : List Line × List Entry} (h : lines rows prices titled = .ok found) :
    ∀ e ∈ found.2, e.step ≠ skipStep := by
  induction titled generalizing found with
  | nil =>
    obtain rfl := Except.ok.inj h
    exact nofun
  | cons head titled ih =>
    obtain ⟨line, hline, h⟩ := bind_eq_ok_iff.1 h
    obtain ⟨more, hmore, h⟩ := bind_eq_ok_iff.1 h
    cases line with
    | none =>
      obtain rfl := Except.ok.inj h
      exact ih hmore
    | some noted =>
      obtain rfl := Except.ok.inj h
      intro e he
      rcases List.mem_append.1 he with he | he
      · exact step_ne_of_line? hline e he
      · exact ih hmore e he

end Breakdown

namespace Quote

/-- Looking totals up writes the same to any journal. -/
theorem writes_resolveTotals (s : Sources) (names : List String) (totals : List (String × Binary64)) :
    Writes Prod.mk (resolveTotals s names totals) := by
  induction names generalizing totals with
  | nil => exact .of_unchanged totals
  | cons name names ih => exact (s.writes_resolve name none).bind fun x => ih (assign name x totals)

/-- A quote with another journal. -/
def withJournal (q : Quote) (j : Journal) : Quote := { q with journal := j }

/-- What a quote reports is independent of what its pass noted. -/
theorem writes_ofPass (setting : Setting) (ledger : Ledger) (outcomes : List (String × Outcome)) :
    Writes withJournal fun j => ofPass setting ⟨ledger, outcomes, j⟩ := by
  unfold ofPass
  dsimp only
  refine (writes_resolveTotals _ _ _).bind fun totals => ?_
  refine Writes.bind_of_pure fun found hfound => ?_
  refine Writes.bind_of_pure fun monthly _ => ?_
  refine Writes.bind_of_pure fun oneTime _ => ?_
  refine Writes.bind_of_pure fun annual _ => ?_
  refine Writes.bind_of_pure fun year _ => ?_
  let report : Quote := ⟨totals, found.1, ⟨monthly, oneTime, annual⟩, year, ledger.prices, {}⟩
  let entries := found.2 ++ [Ledger.figure "Total" "Monthly fees" monthly, Ledger.figure "Total" "Annualised" year]
  have hentries : ∀ e ∈ entries, e.step ≠ skipStep := by
    intro e he
    rcases List.mem_append.1 he with he | he
    · exact Breakdown.step_ne_of_lines hfound e he
    · obtain rfl | rfl : e = _ ∨ e = _ := by simpa using he
      · simp [Ledger.figure, skipStep]
      · simp [Ledger.figure, skipStep]
  by_cases hpricing : hasPricing totals report.fees
  · simp only [report, hpricing, if_true]
    exact Writes.of_entries withJournal report hentries
  · simp only [report, hpricing]
    exact Writes.of_entries_warning withJournal report hentries (by decide)

end Quote
end Tariff
