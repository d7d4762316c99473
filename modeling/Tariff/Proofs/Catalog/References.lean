/-
# References to rules without a price

A reference has no price in two places. Checking a rule against the ids further up warns of the references to any
other rule, and a pass that prices the rule notes the references whose rules it has not priced. The check reads the
formula as it is written and the pass reads it trimmed, which makes no other placeholders (`placeholders_trim`).

What the check warns of the pass notes, whatever the answers. Beyond that it notes the references to rules further
up that it has skipped, and no others (`Pass.noted_iff_of_check`).

| rule referred to | check | pass |
| --- | --- | --- |
| the rule itself, further down, or nowhere | warns | zero, noted |
| further up, skipped | | zero, noted |
| further up, priced | | its price |

An entry of that kind stands in the journal of a pass only for a rule at its first place and for a reference that had
no price there (`Pass.notedAtFirst_of_mem_entries`), so no other rule, and no later one with the same id, can have
left it.
-/

import Tariff.Catalog.Check
import Tariff.Proofs.Formula.Trimming
import Tariff.Proofs.Pricing.Bookkeeping
import Tariff.Proofs.Pricing.Forward

namespace Tariff

open Formula

/-! ### What the check warns of -/

/-- The text of a placeholder tells its name. -/
theorem Sources.braced_injective {a b : String} (h : braced a = braced b) : a = b := by
  have hchars := congrArg String.toList h
  simp only [braced, String.toList_append] at hchars
  exact String.toList_injective (List.append_cancel_left (List.append_cancel_right hchars))

namespace Check

/-- A warning of a reference tells the name that it is about. -/
theorem forwardWarning_injective {a b : String} (h : forwardWarning a = forwardWarning b) : a = b := by
  have hchars := congrArg String.toList h
  simp only [forwardWarning, String.toList_append] at hchars
  exact Sources.braced_injective (String.toList_injective (List.append_cancel_right hchars))

/-- A message does not begin with a placeholder. -/
def IsProse (message : String) : Prop := message.toList.head? ≠ some '\x7b'

instance (message : String) : Decidable (IsProse message) := inferInstanceAs (Decidable (_ ≠ _))

/-- A warning of a reference begins with a placeholder, by which it is told from the other messages. -/
theorem not_isProse_forwardWarning (name : String) : ¬ IsProse (forwardWarning name) := by
  simp [IsProse, forwardWarning, Sources.braced]

/-- A message that begins with another character than a brace is none. -/
theorem isProse_append {start : String} {c : Char} (h : start.toList.head? = some c) (hc : c ≠ '\x7b')
    (rest : String) : IsProse (start ++ rest) := by
  rw [IsProse, String.toList_append, List.head?_append, h]
  simpa using hc

/-- A note under a condition is the message of that condition. -/
theorem isProse_of_mem_note {condition : Bool} {message m : String} (h : IsProse message)
    (hm : m ∈ note condition message) : IsProse m := by
  unfold note at hm
  split at hm
  · rwa [List.mem_singleton.1 hm]
  · cases hm

/-- A note about what is not listed is one of the messages for that. -/
theorem isProse_of_mem_unlisted {known : List String} {text : Option String} {message : String → String}
    {m : String} (h : ∀ s, IsProse (message s)) (hm : m ∈ unlisted known text message) : IsProse m := by
  unfold unlisted at hm
  split at hm
  · exact isProse_of_mem_note (h _) hm
  · cases hm

/-- Warnings about anything but the way of calculating are prose. -/
theorem isProse_of_mem_warnings {r : Rule} {m : String}
    (hm : m ∈ metadataWarnings r ++ boundWarnings r ++ operatorWarnings r) : IsProse m := by
  rcases List.mem_append.1 hm with hm | hm
  · rcases List.mem_append.1 hm with hm | hm
    · rcases List.mem_append.1 hm with hm | hm
      · rcases List.mem_append.1 hm with hm | hm
        · refine isProse_of_mem_unlisted (fun s => ?_) hm
          rw [String.append_assoc]
          exact isProse_append (c := 'U') (by decide) (by decide) _
        · refine isProse_of_mem_unlisted (fun s => ?_) hm
          rw [String.append_assoc]
          exact isProse_append (c := 'U') (by decide) (by decide) _
      · exact isProse_of_mem_note (by decide +kernel) hm
    · unfold boundWarnings at hm
      split at hm
      · exact isProse_of_mem_note (by decide +kernel) hm
      · cases hm
  · exact isProse_of_mem_note (by decide +kernel) hm

/-- **The check warns of the placeholders that refer to rules not further up,** and of no others. The other
messages of the check are prose, so none of them can be taken for such a warning. -/
theorem mem_warnings_check_iff {r : Rule} (hmethod : Method.ofName? r.method = some .formula)
    (hformula : r.formula ≠ "") {earlier : List String} {rulePrefix name : String} :
    forwardWarning name ∈ (r.check (some earlier) rulePrefix).warnings ↔
      name ∈ placeholders r.formula ∧ ∃ id, Sources.afterPrefix? rulePrefix name = some id ∧ id ∉ earlier := by
  have hspecial : (methodFindings r (some earlier) rulePrefix).warnings =
      (forwardReferences earlier rulePrefix (placeholders r.formula)).map forwardWarning := by
    simp [methodFindings, hmethod, hformula]
  have hreference : name ∈ forwardReferences earlier rulePrefix (placeholders r.formula) ↔
      name ∈ placeholders r.formula ∧ ∃ id, Sources.afterPrefix? rulePrefix name = some id ∧ id ∉ earlier := by
    rw [forwardReferences, List.mem_filter]
    refine and_congr_right fun _ => ?_
    cases Sources.afterPrefix? rulePrefix name with
    | some id => simp
    | none => simp
  rw [← hreference, Rule.check]
  dsimp only
  rw [List.mem_append, hspecial, List.mem_map]
  constructor
  · rintro (hother | ⟨other, hother, heq⟩)
    · exact absurd (isProse_of_mem_warnings hother) (not_isProse_forwardWarning name)
    · rwa [← forwardWarning_injective heq]
  · exact fun hname => .inr ⟨name, hname, rfl⟩

end Check

/-! ### What a pass notes -/

/-- The step of an entry about a reference without a price. -/
def forwardStep : String := "ForwardReference"

namespace Journal

variable {P Q : Entry → Prop} {j k l : Journal}

/-- One journal comes from another by entries of a kind. -/
def Adds (P : Entry → Prop) (j k : Journal) : Prop := ∀ e ∈ k.entries, e ∈ j.entries ∨ P e

theorem Adds.refl (P : Entry → Prop) (j : Journal) : j.Adds P j := fun _ => .inl

theorem Adds.trans (h : j.Adds P k) (h' : k.Adds P l) : j.Adds P l :=
  fun e he => (h' e he).elim (h e) .inr

theorem Adds.mono (h : j.Adds P k) (hPQ : ∀ e, P e → Q e) : j.Adds Q k :=
  fun e he => (h e he).imp_right (hPQ e)

/-- Recording entries of a kind adds entries of that kind. -/
theorem Adds.record (h : j.Adds P k) {es : List Entry} (hes : ∀ e ∈ es, P e) : j.Adds P (k.record es) :=
  fun e he => (List.mem_append.1 he).elim (h e) fun he => .inr (hes e he)

/-- A warning adds no entry. -/
theorem Adds.warn (h : j.Adds P k) (text : String) : j.Adds P (k.warn text) := by
  unfold Journal.warn
  split
  · exact h
  · exact h

end Journal

namespace Sources

variable {s : Sources} {ruleId : Option String} {name : String}

/-- A name refers to a rule that has no price. -/
def Unpriced (s : Sources) (name : String) : Prop :=
  ∃ id, afterPrefix? s.terms.rulePrefix name = some id ∧ s.ledger.find? id = none

/-- The entry about a name without a price. -/
def forwardEntry (name : String) (ruleId : Option String) : Entry :=
  ⟨forwardStep, braced name ++ " defaulted", some "0", ruleId⟩

/-- An entry about a rule is of another kind, or about one of some names, which has no price. -/
def NotesUnpriced (s : Sources) (ruleId : Option String) (names : List String) (e : Entry) : Prop :=
  e.ruleId ≠ none → e.step = forwardStep →
    ∃ name ∈ names, s.Unpriced (trim name) ∧ e = forwardEntry name ruleId

/-- An entry about another step is no note of a reference. -/
theorem notesUnpriced_of_ne {names : List String} {e : Entry} (h : e.step ≠ forwardStep) :
    s.NotesUnpriced ruleId names e := fun _ hstep => absurd hstep h

theorem NotesUnpriced.mono {names more : List String} {e : Entry} (h : s.NotesUnpriced ruleId names e)
    (hmore : ∀ name ∈ names, name ∈ more) : s.NotesUnpriced ruleId more e := by
  intro hrule hstep
  obtain ⟨name, hname, hentry⟩ := h hrule hstep
  exact ⟨name, hmore name hname, hentry⟩

/-- Only a reference without a price gives a fault of that kind. -/
theorem unpriced_of_find {u : Unresolved} (h : s.find name = .error (.unresolved u)) (hkind : u.kind = forwardStep) :
    s.Unpriced name := by
  cases s.place name with
  | @reference id hrule =>
    refine ⟨id, hrule, ?_⟩
    rw [find_of_reference hrule] at h
    cases hprice : s.ledger.find? id with
    | none => rfl
    | some price => simp [hprice] at h
  | rate hrule hname =>
    rw [find_of_rate hrule hname] at h
    split at h
    · cases h
    · cases h
  | total hrule hname hrow =>
    rw [find_of_total hrule hname hrow] at h
    split at h
    · cases h
    · cases h
  | answer hname =>
    rw [find_of_answer hname] at h
    split at h
    · cases h
    · obtain rfl := LookupFault.unresolved.inj (Except.error.inj h)
      simp [Unresolved.kind, forwardStep] at hkind
    · cases h

/-- Looking a name up may note that the rule it refers to has no price, and nothing else about references. -/
theorem adds_of_resolve {j j' : Journal} {x : Binary64} (h : s.resolve name ruleId j = .ok (x, j')) :
    j.Adds (s.NotesUnpriced ruleId [name]) j' := by
  rw [resolve_eq] at h
  cases hfind : s.find (trim name) with
  | ok found =>
    rw [hfind] at h
    obtain ⟨-, rfl⟩ := Prod.mk.inj (Except.ok.inj h)
    refine (Journal.Adds.refl _ j).record fun e he => ?_
    rcases List.mem_append.1 he with he | he
    · exact fun hrule => absurd (isFigure_of_find hfind e he).1 hrule
    · rw [List.mem_singleton.1 he]
      exact notesUnpriced_of_ne (show "Resolve" ≠ forwardStep by decide)
  | error fault =>
    rw [hfind] at h
    cases fault with
    | halt halt => cases h
    | unresolved u =>
      obtain ⟨-, rfl⟩ := Prod.mk.inj (Except.ok.inj h)
      refine ((Journal.Adds.refl _ j).warn _).record fun e he => ?_
      rw [List.mem_singleton.1 he]
      intro _ hkind
      refine ⟨name, List.mem_singleton_self name, unpriced_of_find hfind hkind, ?_⟩
      rw [forwardEntry, ← hkind]

/-- Looking names up notes what looking each of them up does. -/
theorem adds_of_resolveAll {names : List String} {j j' : Journal} {values : List (String × Binary64)}
    (h : s.resolveAll ruleId names j = .ok (values, j')) : j.Adds (s.NotesUnpriced ruleId names) j' := by
  induction names generalizing j values with
  | nil =>
    obtain ⟨-, rfl⟩ := Prod.mk.inj (Except.ok.inj h)
    exact .refl _ j
  | cons name names ih =>
    obtain ⟨x, xs, middle, hx, hxs, -⟩ := resolveAll_cons_eq_ok_iff.1 h
    have hfirst : j.Adds (s.NotesUnpriced ruleId (name :: names)) middle :=
      (adds_of_resolve hx).mono fun e he => he.mono (by simp)
    have hrest : middle.Adds (s.NotesUnpriced ruleId (name :: names)) j' :=
      (ih hxs).mono fun e he => he.mono fun _ => List.mem_cons_of_mem name
    exact hfirst.trans hrest

end Sources

namespace Rule

variable {r : Rule} {setting : Setting}

/-- What pricing a rule may note about references: those of its formula that have no price. -/
def NotesUnpriced (r : Rule) (setting : Setting) (ledger : Ledger) : Entry → Prop :=
  Sources.NotesUnpriced ⟨setting.answers, ledger, setting.services, setting.terms⟩ (some r.id)
    (placeholders (trim r.formula))

/-- Pricing by formula notes the references of the formula that have no price. -/
theorem FormulaGives.adds {s : Sources} {j : Journal} {raw : Raw} (h : r.FormulaGives s j raw) :
    j.Adds (s.NotesUnpriced (some r.id) (placeholders (trim r.formula))) raw.journal := by
  have hformula : "Formula" ≠ forwardStep := by decide
  have hfilled {values : List (String × Binary64)} {j' : Journal} (text : String)
      (hvalues : s.resolveAll (some r.id) (placeholders (trim r.formula)) j = .ok (values, j')) :
      j.Adds (s.NotesUnpriced (some r.id) (placeholders (trim r.formula)))
        (j'.record [r.entry "Formula" text none]) := by
    refine (Sources.adds_of_resolveAll hvalues).record fun e he => ?_
    rw [List.mem_singleton.1 he]
    exact Sources.notesUnpriced_of_ne hformula
  cases h with
  | blank =>
    refine (Journal.Adds.refl _ j).record fun e he => ?_
    rw [List.mem_singleton.1 he]
    exact Sources.notesUnpriced_of_ne hformula
  | number _ hvalues => exact hfilled _ hvalues
  | @failure values j' f _ hvalues =>
    refine ((hfilled _ hvalues).warn _).record fun e he => ?_
    rw [List.mem_singleton.1 he]
    have hkind : f.kind ≠ forwardStep := by cases f <;> simp [Failure.kind, forwardStep]
    exact Sources.notesUnpriced_of_ne hkind

/-- Pricing by full amount notes no reference. -/
theorem FullGives.adds {answers : Json} {j j' : Journal} {x : Binary64} (h : r.FullGives answers j x j') :
    j.Adds (fun e => e.step ≠ forwardStep) j' := by
  have hunit : "Per Unit" ≠ forwardStep := by decide
  cases h with
  | units => exact (Journal.Adds.refl _ j).record fun e he => by rwa [List.mem_singleton.1 he]
  | noUnits => exact (Journal.Adds.refl _ j).record fun e he => by rwa [List.mem_singleton.1 he]
  | simple => exact .refl _ j
  | unknown => exact (Journal.Adds.refl _ j).warn _

/-- Pricing by the other methods notes no reference. -/
theorem MethodGives.adds {j : Journal} {raw : Raw} (h : r.MethodGives setting j raw) :
    j.Adds (fun e => e.step ≠ forwardStep) raw.journal := by
  cases h with
  | full hx => exact hx.adds
  | discounted hx =>
    refine hx.adds.record fun e he => ?_
    rw [List.mem_singleton.1 he]
    exact show "Discount" ≠ forwardStep by decide

/-- **Pricing a rule notes the references of its own formula only**, and only those without a price at that
time. -/
theorem adds_of_raw {ledger : Ledger} {j : Journal} {raw : Raw} (h : r.raw setting ledger j = .ok raw) :
    j.Adds (r.NotesUnpriced setting ledger) raw.journal := by
  rcases gives_of_raw h with ⟨-, hgives⟩ | ⟨-, hgives⟩
  · exact hgives.adds
  · exact hgives.adds.mono fun e he => Sources.notesUnpriced_of_ne he

/-- The entries about a price itself are of other steps. -/
theorem step_priceEntries_ne (r : Rule) (raw value : Binary64) (reason : String) :
    ∀ e ∈ r.priceEntries raw value reason, e.step ≠ forwardStep := by
  unfold priceEntries
  split
  · simp [entry, forwardStep]
  · simp [entry, forwardStep]

end Rule

namespace Pass

variable {setting : Setting} {p q p' : Pass} {r : Rule} {rules : List Rule}

/-- The next rule notes no references but its own, and those only at its first place. -/
theorem Next.adds (h : Next setting p r p') : p.journal.Adds
    (fun e => r.NotesUnpriced setting p.ledger e ∧ (e.step = forwardStep → p.hasSeen r.id = false)) p'.journal := by
  have hskip : "Skip" ≠ forwardStep := by decide
  cases h with
  | duplicate =>
    refine ((Journal.Adds.refl _ _).warn _).record fun e he => ?_
    rw [List.mem_singleton.1 he]
    exact ⟨Sources.notesUnpriced_of_ne hskip, fun hstep => absurd hstep hskip⟩
  | skipped =>
    refine (Journal.Adds.refl _ _).record fun e he => ?_
    rw [List.mem_singleton.1 he]
    exact ⟨Sources.notesUnpriced_of_ne hskip, fun hstep => absurd hstep hskip⟩
  | priced hseen _ _ _ hraw =>
    refine ((Rule.adds_of_raw hraw).mono fun e he => ⟨he, fun _ => hseen⟩).record fun e he => ?_
    exact ⟨Sources.notesUnpriced_of_ne (r.step_priceEntries_ne _ _ _ e he), fun _ => hseen⟩

/-- An entry is about a reference of a rule at its first place that had no price there. -/
def NotedAtFirst (setting : Setting) (rules : List Rule) (e : Entry) : Prop :=
  ∃ before r after p name, rules = before ++ r :: after ∧ r.id ∉ before.map Rule.id ∧ run setting before = .ok p ∧
    name ∈ placeholders (trim r.formula) ∧
    Sources.Unpriced ⟨setting.answers, p.ledger, setting.services, setting.terms⟩ (trim name) ∧
    e = Sources.forwardEntry name (some r.id)

/-- **An entry about a reference without a price** was left by a rule at its first place, about a placeholder of its
formula that referred to a rule without a price there. -/
theorem notedAtFirst_of_mem_entries (h : run setting rules = .ok q) : ∀ e ∈ q.journal.entries,
    e.ruleId ≠ none → e.step = forwardStep → NotedAtFirst setting rules e := by
  refine run_induction (motive := fun rules q => ∀ e ∈ q.journal.entries,
    e.ruleId ≠ none → e.step = forwardStep → NotedAtFirst setting rules e) nofun ?_ h
  intro earlier p r p' hrun hearlier hnext e he hrule hstep
  rcases hnext.adds e he with hold | ⟨hnotes, hnew⟩
  · obtain ⟨before, s, after, b, name, rfl, hs⟩ := hearlier e hold hrule hstep
    exact ⟨before, s, after ++ [r], b, name, by simp, hs⟩
  · obtain ⟨name, hname, hunpriced, hentry⟩ := hnotes hrule hstep
    exact ⟨earlier, r, [], p, name, rfl, (hasSeen_eq_false_iff hrun).1 (hnew hstep), hrun, hname, hunpriced, hentry⟩

/-- A list of rules has one first place for an id. -/
theorem eq_of_first {before after before' after' : List Rule} {r r' : Rule}
    (h : before ++ r :: after = before' ++ r' :: after') (hid : r.id = r'.id)
    (hnew : r.id ∉ before.map Rule.id) (hnew' : r'.id ∉ before'.map Rule.id) : before = before' ∧ r = r' := by
  have hsplit {front rest more : List Rule} {s t : Rule} (hid : s.id = t.id) (hnew : t.id ∉ front.map Rule.id)
      {middle : List Rule} (hfront : ∃ first, front = first ++ middle) (h : s :: rest = middle ++ t :: more) :
      middle = [] ∧ s = t := by
    cases middle with
    | nil => exact ⟨rfl, (List.cons.inj h).1⟩
    | cons u middle =>
      obtain ⟨first, rfl⟩ := hfront
      obtain rfl := (List.cons.inj h).1
      exact absurd (by simp [hid]) hnew
  rcases List.append_eq_append_iff.1 h with ⟨middle, rfl, hrest⟩ | ⟨middle, rfl, hrest⟩
  · obtain ⟨rfl, rfl⟩ := hsplit hid hnew' ⟨before, rfl⟩ hrest
    exact ⟨(List.append_nil _).symm, rfl⟩
  · obtain ⟨rfl, rfl⟩ := hsplit hid.symm hnew ⟨before', rfl⟩ hrest
    exact ⟨List.append_nil _, rfl⟩

/-- An id that has come up is skipped just if it has no price. -/
theorem skipped_iff_of_run (h : run setting rules = .ok q) {id : String} (hid : id ∈ rules.map Rule.id) :
    lookup? id q.outcomes = some .skipped ↔ q.ledger.find? id = none := by
  obtain ⟨r, hr⟩ := Rule.exists_first?_of_mem hid
  obtain ⟨rfl, before, after, rfl, hnew⟩ := Rule.first?_eq_some_iff.1 hr
  rcases applies_or_skipped h hnew with happlies | ⟨hskipped, hnone⟩
  · obtain ⟨p, raw, value, -, -, hraw, -, -, hprice, houtcome⟩ := exists_raw_of_run h hnew happlies
    rw [hprice, houtcome, Option.some.injEq]
    exact iff_of_false (Rule.skipped_ne_outcome hraw).symm nofun
  · exact iff_of_true hskipped hnone

/-- A placeholder of a rule has stood for zero in a pass, with a warning about the rule that it refers to. -/
structure Defaulted (setting : Setting) (q : Pass) (before : List Rule) (r : Rule) (name id : String) : Prop where
  zero : ∃ p values j, run setting before = .ok p ∧ r.readings setting p = .ok (values, j) ∧
    lookup? name values = some .zero
  warned : (Unresolved.notPriced name id).message ∈ q.journal.warnings
  noted : Sources.forwardEntry name (some r.id) ∈ q.journal.entries

/-- A reference of a rule that is priced has stood for zero just if the rule referred to had no price by then. -/
theorem defaulted_iff {before after : List Rule} (h : run setting (before ++ r :: after) = .ok q)
    (hnew : r.id ∉ before.map Rule.id) (happlies : r.Applies setting)
    (hmethod : Method.ofName? r.method = some .formula) {name id : String}
    (hname : name ∈ placeholders (trim r.formula))
    (hreference : Sources.afterPrefix? setting.terms.rulePrefix name = some id) :
    Defaulted setting q before r name id ↔ q.priceAmong? before id = none := by
  obtain ⟨p, raw, value, hp, hcontinues, hraw, hjournal, -, -, -⟩ := exists_raw_of_run h hnew happlies
  rw [priceAmong?_eq_find? hp hcontinues]
  constructor
  · intro hdefaulted
    -- The entry could only have been left by this rule for this name.
    obtain ⟨before', r', after', p', name', hsplit, hnew', hp', -, ⟨id', hid', hnone⟩, hentry⟩ :=
      notedAtFirst_of_mem_entries h _ hdefaulted.noted nofun rfl
    obtain ⟨-, hdescription, -, hrule⟩ := Entry.mk.inj hentry
    obtain ⟨rfl, rfl⟩ := eq_of_first hsplit (Option.some.inj hrule) hnew hnew'
    obtain rfl := Except.ok.inj (hp.symm.trans hp')
    obtain rfl : name = name' := by
      have hchars := congrArg String.toList hdescription
      simp only [String.toList_append] at hchars
      exact Sources.braced_injective (String.toList_injective (List.append_cancel_right hchars))
    rw [trim_of_mem_placeholders hname, hreference] at hid'
    rwa [Option.some.inj hid']
  · intro hnone
    rw [Rule.raw, if_pos hmethod] at hraw
    obtain ⟨values, j, hvalues, -, hj⟩ := Rule.exists_readings_of_byFormula hraw
    have hrefers := refersBack_of_readings hp hcontinues hvalues (hj.trans hjournal) name hname id hreference
    rw [priceAmong?_eq_find? hp hcontinues, hnone] at hrefers
    obtain ⟨hzero, hwarned, hnoted⟩ := hrefers
    exact ⟨⟨p, values, j, hp, hvalues, hzero⟩, hwarned, hnoted⟩

/-- **The check agrees with the pass.** Take a rule with a formula where its id comes first, and a placeholder in the
formula that refers to a rule. The check against the ids further up warns of the placeholder just if the id referred
to is not one of them. In every pass that prices the rule, by whatever answers, services and selection, what is warned
of stands for zero, with a warning and an entry; and what is not warned of does so just if the rule referred to was
skipped. -/
theorem noted_iff_of_check {before after : List Rule} (hnew : r.id ∉ before.map Rule.id)
    (hmethod : Method.ofName? r.method = some .formula) (hformula : trim r.formula ≠ "") {rulePrefix name id : String}
    (hname : name ∈ placeholders r.formula) (hreference : Sources.afterPrefix? rulePrefix name = some id) :
    (Check.forwardWarning name ∈ (r.check (some (before.map Rule.id)) rulePrefix).warnings ↔
      id ∉ before.map Rule.id) ∧
    ∀ (setting : Setting) (q : Pass), setting.terms.rulePrefix = rulePrefix →
      run setting (before ++ r :: after) = .ok q → q.ledger.has r.id →
        (Check.forwardWarning name ∈ (r.check (some (before.map Rule.id)) rulePrefix).warnings →
          Defaulted setting q before r name id) ∧
        (Check.forwardWarning name ∉ (r.check (some (before.map Rule.id)) rulePrefix).warnings →
          (Defaulted setting q before r name id ↔ lookup? id q.outcomes = some .skipped)) := by
  have hwarned : Check.forwardWarning name ∈ (r.check (some (before.map Rule.id)) rulePrefix).warnings ↔
      id ∉ before.map Rule.id := by
    have hne : r.formula ≠ "" := by
      intro hempty
      exact hformula (by rw [hempty]; decide)
    rw [Check.mem_warnings_check_iff hmethod hne]
    simp [hname, hreference]
  refine ⟨hwarned, ?_⟩
  rintro setting q rfl hrun hpriced
  -- The rule has a price and is the first of its id, so it has been priced where it stands.
  have happlies : r.Applies setting := by
    refine (applies_or_skipped hrun hnew).resolve_right fun hskipped => ?_
    rw [Ledger.find?_eq_none_iff.1 hskipped.2] at hpriced
    cases hpriced
  rw [← placeholders_trim] at hname
  rw [hwarned, defaulted_iff hrun hnew happlies hmethod hname hreference]
  refine ⟨fun hid => if_neg hid, fun hid => ?_⟩
  have hearlier := Decidable.not_not.1 hid
  rw [priceAmong?, if_pos hearlier, skipped_iff_of_run hrun]
  rw [List.map_append]
  exact List.mem_append_left _ hearlier

/-- Rules further up, the second of which is not active. -/
def upperRules : List Rule := [{ id := "base", formula := "40" }, { id := "off", formula := "2", isActive := false }]

/-- A rule that refers to both of them and to one further down. -/
def sumRule : Rule := {
  id := "sum"
  formula := " \x7b\x7bpricingRule.base\x7d\x7d + \x7b\x7b pricingRule.off \x7d\x7d" ++
    " + \x7b\x7bpricingRule.late\x7d\x7d" }

/-- A pass in which all kinds of references come up: to a rule with a price, to a skipped one, and to one
further down. -/
theorem noted_iff_of_check_sumRule : ∃ q, run ⟨.object [], [], none, {}⟩
      (upperRules ++ sumRule :: [{ id := "late", formula := "7" }]) = .ok q ∧
    Defaulted ⟨.object [], [], none, {}⟩ q upperRules sumRule "pricingRule.late" "late" ∧
    Defaulted ⟨.object [], [], none, {}⟩ q upperRules sumRule "pricingRule.off" "off" ∧
    ¬ Defaulted ⟨.object [], [], none, {}⟩ q upperRules sumRule "pricingRule.base" "base" := by
  have hreturns : (run ⟨.object [], [], none, {}⟩
      (upperRules ++ sumRule :: [{ id := "late", formula := "7" }])).toOption.map
        (fun q => (q.ledger.has "sum", q.outcomes)) =
      some (true, [("base", .evaluated), ("off", .skipped), ("sum", .evaluated), ("late", .evaluated)]) := by
    decide +kernel
  obtain ⟨q, hq, hfound⟩ := exists_of_toOption_map hreturns
  obtain ⟨hsum, houtcomes⟩ := Prod.mk.inj hfound
  have hcheck {name id : String} (hname : name ∈ placeholders sumRule.formula)
      (hreference : Sources.afterPrefix? "pricingRule." name = some id) :
      (id ∉ upperRules.map Rule.id → Defaulted ⟨.object [], [], none, {}⟩ q upperRules sumRule name id) ∧
        (id ∈ upperRules.map Rule.id →
          (Defaulted ⟨.object [], [], none, {}⟩ q upperRules sumRule name id ↔
            lookup? id q.outcomes = some .skipped)) := by
    obtain ⟨hwarned, hpass⟩ := @noted_iff_of_check sumRule upperRules [{ id := "late", formula := "7" }]
      (by decide) rfl (by decide) _ name id hname hreference
    obtain ⟨hdefaulted, hskipped⟩ := hpass _ q rfl hq hsum
    exact ⟨fun hid => hdefaulted (hwarned.2 hid), fun hid => hskipped fun hwarning => hwarned.1 hwarning hid⟩
  refine ⟨q, hq, (hcheck (by decide +kernel) rfl).1 (by decide), ?_, ?_⟩
  · rw [(hcheck (by decide +kernel) rfl).2 (by decide), houtcomes]
    rfl
  · rw [(hcheck (by decide +kernel) rfl).2 (by decide), houtcomes]
    decide

end Pass
end Tariff
