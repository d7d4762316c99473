/-
# Rules left out

A rule that is skipped and a second rule with an id have no effect on money. A quote on a catalog is the
quote on its priced rules alone, the first rules with their ids that do not get skipped, except for the
notes about the rules left out (`Quote.calculate_pricedRules`).

Both passes are taken side by side. After each rule of the catalog, the pass over the priced rules so far is
the pass so far without its omissions.

| the next rule | the priced rules | the pass without its omissions |
| --- | --- | --- |
| its id has been seen | stay | stays |
| it does not apply | stay | stays |
| it is priced | get it | goes on with it |
-/

import Mathlib.Data.List.Induction
import Tariff.Proofs.Pricing.Bookkeeping
import Tariff.Proofs.Pricing.Notes

namespace Tariff

/-! ### Journals -/

namespace Journal

/-- A journal without the notes about rules left out. -/
def withoutOmissions (j : Journal) : Journal where
  entries := j.entries.filter fun e => e.step ≠ skipStep
  warnings := j.warnings.filter fun text => !isDuplicateWarning text

/-- Entries about prices stay when those about omissions are taken out. -/
theorem withoutOmissions_record {es : List Entry} (h : ∀ e ∈ es, e.step ≠ skipStep) (j : Journal) :
    (j.record es).withoutOmissions = j.withoutOmissions.record es := by
  simpa [withoutOmissions, record] using h

/-- Warnings about prices stay when those about omissions are taken out. -/
theorem withoutOmissions_warn {text : String} (h : isDuplicateWarning text = false) (j : Journal) :
    (j.warn text).withoutOmissions = j.withoutOmissions.warn text := by
  have hcontains : j.withoutOmissions.warnings.contains text = j.warnings.contains text := by
    simp [withoutOmissions, h]
  unfold warn
  rw [hcontains]
  split
  · rfl
  · simp [withoutOmissions, h]

/-- Notes about prices stay when those about omissions are taken out. -/
theorem withoutOmissions_addAll {notes : List Note} (h : ∀ n ∈ notes, n.IsOfPrice) (j : Journal) :
    (j.addAll notes).withoutOmissions = j.withoutOmissions.addAll notes := by
  induction notes generalizing j with
  | nil => rfl
  | cons note notes ih =>
    have hnote : (j.add note).withoutOmissions = j.withoutOmissions.add note := by
      cases note with
      | entry e =>
        have he : e.step ≠ skipStep := h _ List.mem_cons_self
        exact withoutOmissions_record (by simpa using he) j
      | warning text => exact withoutOmissions_warn (h _ List.mem_cons_self) j
    calc ((j.add note).addAll notes).withoutOmissions
        = (j.add note).withoutOmissions.addAll notes := ih (fun n hn => h n (List.mem_cons_of_mem _ hn)) _
      _ = (j.withoutOmissions.add note).addAll notes := by rw [hnote]

/-- An entry about a rule that was left out is taken out. -/
theorem withoutOmissions_record_skip {e : Entry} (h : e.step = skipStep) (j : Journal) :
    (j.record [e]).withoutOmissions = j.withoutOmissions := by
  simp [withoutOmissions, record, h]

/-- A warning about a rule that comes again is taken out. -/
theorem withoutOmissions_warn_duplicate {text : String} (h : isDuplicateWarning text) (j : Journal) :
    (j.warn text).withoutOmissions = j.withoutOmissions := by
  unfold warn
  split
  · rfl
  · simp [withoutOmissions, h]

end Journal

/-! ### Priced rules -/

namespace Rule

/-- The entries about a price are none about an omission. -/
theorem step_ne_of_priceEntries (r : Rule) (raw value : Binary64) (reason : String) :
    ∀ e ∈ r.priceEntries raw value reason, e.step ≠ skipStep := by
  unfold priceEntries
  split
  · simp [entry, skipStep]
  · simp [entry, skipStep]

/-- The first rules with their ids, in catalog order. -/
def firstOfEach (rules : List Rule) : List Rule :=
  rules.foldl (fun seen r => if (seen.map Rule.id).contains r.id then seen else seen ++ [r]) []

theorem firstOfEach_concat (rules : List Rule) (r : Rule) :
    firstOfEach (rules ++ [r]) = if ((firstOfEach rules).map Rule.id).contains r.id then firstOfEach rules
      else firstOfEach rules ++ [r] := by
  rw [firstOfEach, List.foldl_append]
  rfl

/-- They have the ids of the catalog, each once. -/
theorem map_id_firstOfEach (rules : List Rule) :
    (firstOfEach rules).map Rule.id = Formula.firsts (rules.map Rule.id) := by
  induction rules using List.reverseRecOn with
  | nil => rfl
  | append_singleton rules r ih =>
    rw [firstOfEach_concat, List.map_append, List.map_singleton, Formula.firsts_concat, ih]
    split
    · exact ih
    · rw [List.map_append, ih, List.map_singleton]

/-- A rule whose id has come up is not the first. -/
theorem firstOfEach_concat_of_mem {rules : List Rule} {r : Rule} (h : r.id ∈ rules.map Rule.id) :
    firstOfEach (rules ++ [r]) = firstOfEach rules := by
  rw [firstOfEach_concat, map_id_firstOfEach, if_pos]
  rwa [List.contains_iff_mem, Formula.mem_firsts]

/-- A rule whose id has not come up is the first. -/
theorem firstOfEach_concat_of_notMem {rules : List Rule} {r : Rule} (h : r.id ∉ rules.map Rule.id) :
    firstOfEach (rules ++ [r]) = firstOfEach rules ++ [r] := by
  rw [firstOfEach_concat, map_id_firstOfEach, if_neg]
  rwa [List.contains_iff_mem, Formula.mem_firsts]

/-- First rules are among the rules. -/
theorem id_mem_of_mem_firstOfEach {rules : List Rule} {r : Rule} (h : r ∈ firstOfEach rules) :
    r.id ∈ rules.map Rule.id := by
  rw [← Formula.mem_firsts, ← map_id_firstOfEach]
  exact List.mem_map_of_mem h

end Rule

namespace Pass

variable {setting : Setting} {p p' : Pass} {r : Rule} {rules : List Rule}

/-- The rules of a catalog that a pass over it has priced. -/
def pricedRules (p : Pass) (rules : List Rule) : List Rule :=
  (Rule.firstOfEach rules).filter fun r =>
    (r.id, .evaluated) ∈ p.outcomes ∨ (r.id, .failed) ∈ p.outcomes

/-- A pass without all that is about rules left out. -/
def withoutOmissions (p : Pass) : Pass where
  ledger := p.ledger
  outcomes := p.outcomes.filter fun o => o.2 = .evaluated ∨ o.2 = .failed
  journal := p.journal.withoutOmissions

/-- A rule whose id has come up is not among those that are priced. -/
theorem pricedRules_concat_of_mem (h : r.id ∈ rules.map Rule.id) :
    p.pricedRules (rules ++ [r]) = p.pricedRules rules := by
  rw [pricedRules, Rule.firstOfEach_concat_of_mem h]
  rfl

/-- A rule with a new id is among the priced rules just if it is evaluated or fails. -/
theorem pricedRules_concat_of_notMem {outcome : Outcome} (h : r.id ∉ rules.map Rule.id)
    (hseen : p.hasSeen r.id = false) (houtcomes : p'.outcomes = p.outcomes ++ [(r.id, outcome)]) :
    p'.pricedRules (rules ++ [r]) =
      p.pricedRules rules ++ if outcome = .evaluated ∨ outcome = .failed then [r] else [] := by
  have hearlier : (Rule.firstOfEach rules).filter (fun s =>
      (s.id, .evaluated) ∈ p'.outcomes ∨ (s.id, .failed) ∈ p'.outcomes) = p.pricedRules rules := by
    refine List.filter_congr fun s hs => ?_
    have hne : s.id ≠ r.id := fun heq => h (heq ▸ Rule.id_mem_of_mem_firstOfEach hs)
    simp [houtcomes, hne]
  have hlast (o : Outcome) : (r.id, o) ∈ p'.outcomes ↔ outcome = o := by
    simp [houtcomes, notMem_outcomes hseen, eq_comm]
  rw [pricedRules, Rule.firstOfEach_concat_of_notMem h, List.filter_append, hearlier]
  simp [List.filter_cons, hlast]

/-- A rule that has not come up in a pass has not come up without its omissions. -/
theorem hasSeen_withoutOmissions (h : p.hasSeen r.id = false) :
    p.withoutOmissions.hasSeen r.id = false := by
  have hkept : r.id ∉ p.withoutOmissions.outcomes.map Prod.fst := by
    intro hmem
    obtain ⟨⟨id, outcome⟩, ho, rfl⟩ := List.mem_map.1 hmem
    exact notMem_outcomes h outcome (List.mem_filter.1 ho).1
  rw [← isSome_lookup?, Bool.not_eq_true] at hkept
  rw [hasSeen, hkept, Bool.false_or]
  exact has_of_hasSeen_eq_false (p := p) h

/-- **A step leaves its rule out, or it does the same without the omissions so far.** The ledger has the same
prices in both passes, and nothing reads the journal. -/
theorem Next.pricedRules (h : Next setting p r p') (hrun : run setting rules = .ok p) :
    p'.pricedRules (rules ++ [r]) = p.pricedRules rules ∧ p'.withoutOmissions = p.withoutOmissions ∨
      p'.pricedRules (rules ++ [r]) = p.pricedRules rules ++ [r] ∧
        Next setting p.withoutOmissions r p'.withoutOmissions := by
  cases h with
  | duplicate hold =>
    left
    have hduplicate : isDuplicateWarning ("Duplicate rule id '" ++ r.id ++ "' ignored") := by
      rw [String.append_assoc, isDuplicateWarning, String.toList_append, List.isPrefixOf_iff_prefix]
      exact List.prefix_append _ _
    refine ⟨pricedRules_concat_of_mem ((hasSeen_iff_of_run hrun).1 hold), ?_⟩
    rw [withoutOmissions, Journal.withoutOmissions_record_skip rfl,
      Journal.withoutOmissions_warn_duplicate hduplicate]
    rfl
  | skipped hnew =>
    left
    constructor
    · rw [pricedRules_concat_of_notMem ((hasSeen_eq_false_iff hrun).1 hnew) hnew rfl]
      simp
    · rw [withoutOmissions, Journal.withoutOmissions_record_skip rfl]
      simp [withoutOmissions]
  | @priced verdict raw value hnew hhas hv happlies hraw hvalue =>
    right
    -- What prices the rule adds the same notes to the journal without the omissions.
    obtain ⟨⟨rawValue, outcome⟩, notes, hnotes, rfl, hraw'⟩ :=
      (r.writes_raw setting p.ledger).exists_notes hraw
    have houtcome : outcome = .evaluated ∨ outcome = .failed := Rule.outcome_of_raw hraw
    constructor
    · rw [pricedRules_concat_of_notMem ((hasSeen_eq_false_iff hrun).1 hnew) hnew rfl]
      exact congrArg _ (if_pos houtcome)
    · let entries := r.priceEntries rawValue value verdict.reason
      have houtcomes : (p.outcomes ++ [(r.id, outcome)]).filter
          (fun o => o.2 = .evaluated ∨ o.2 = .failed) = p.withoutOmissions.outcomes ++ [(r.id, outcome)] := by
        simp [withoutOmissions, houtcome]
      have hjournal : ((p.journal.addAll notes).record entries).withoutOmissions =
          (p.withoutOmissions.journal.addAll notes).record entries := by
        rw [Journal.withoutOmissions_record (r.step_ne_of_priceEntries _ _ _),
          Journal.withoutOmissions_addAll hnotes]
        rfl
      have hpriced : Next setting p.withoutOmissions r ⟨p.ledger.push (r.price value) hhas,
          p.withoutOmissions.outcomes ++ [(r.id, outcome)],
          (p.withoutOmissions.journal.addAll notes).record entries⟩ :=
        .priced (hasSeen_withoutOmissions hnew) hhas hv happlies (hraw' _) hvalue
      rwa [← hjournal, ← houtcomes] at hpriced

/-- **The pass over the priced rules is the pass without its omissions.** By induction on the rules, a step on
one side being a step or none on the other. -/
theorem run_pricedRules (h : run setting rules = .ok p) :
    run setting (p.pricedRules rules) = .ok p.withoutOmissions := by
  refine run_induction (motive := fun rules p =>
    run setting (p.pricedRules rules) = .ok p.withoutOmissions) rfl ?_ h
  intro earlier p r p' hrun ih hnext
  rcases hnext.pricedRules hrun with ⟨hrules, hpass⟩ | ⟨hrules, hnext'⟩
  · rw [hrules, hpass, ih]
  · rw [hrules]
    exact run_concat_eq_ok_iff.2 ⟨p.withoutOmissions, ih, hnext'⟩

end Pass

/-! ### Quotes -/

namespace Quote

/-- **Rules left out have no effect on money.** A quote on a catalog is the quote on its priced rules alone:
it has the same prices, totals, lines and sums, and it differs in its notes about rules left out. -/
theorem calculate_pricedRules {catalog : Catalog} {terms : Terms} {answers : Json} {selection : Selection}
    {q : Quote} (h : calculate catalog terms answers selection = .ok q) :
    ∃ p, Pass.run ⟨givenAnswers answers, catalog.services, selection, terms⟩ catalog.rules = .ok p ∧
      calculate { catalog with rules := p.pricedRules catalog.rules } terms answers selection =
        .ok { q with journal := q.journal.withoutOmissions } := by
  obtain ⟨p, hrun, hquote⟩ := bind_eq_ok_iff.1 h
  obtain ⟨report, notes, hnotes, rfl, hquote'⟩ :=
    (writes_ofPass _ p.ledger p.outcomes).exists_notes (j := p.journal) hquote
  refine ⟨p, hrun, ?_⟩
  rw [calculate, Pass.run_pricedRules hrun, ok_bind]
  have hjournal := Journal.withoutOmissions_addAll hnotes p.journal
  calc ofPass _ p.withoutOmissions
      = .ok (report.withJournal (p.journal.withoutOmissions.addAll notes)) := hquote' _
    _ = .ok { report.withJournal (p.journal.addAll notes) with
          journal := (p.journal.addAll notes).withoutOmissions } := by rw [← hjournal]; rfl

/-- A priced rule, one left out that would have named the service, and one whose id has come before. -/
def thinCatalog : Catalog where
  rules := [
    { id := "desk-1", formula := "2" },
    { id := "lamp", formula := "3", service := some "desk", isActive := false },
    { id := "desk-1", formula := "4" }]
  services := [{ id := "desk", total := some "deskTotal" }]

/-- Of rules that are priced, skipped and there twice, the priced one alone comes to the same quote. -/
theorem calculate_pricedRules_thinCatalog :
    ∃ p q, Pass.run ⟨.object [], thinCatalog.services, none, {}⟩ thinCatalog.rules = .ok p ∧
      calculate thinCatalog {} (.object []) none = .ok q ∧
      p.pricedRules thinCatalog.rules = [{ id := "desk-1", formula := "2" }] ∧
      calculate { thinCatalog with rules := p.pricedRules thinCatalog.rules } {} (.object []) none =
        .ok { q with journal := q.journal.withoutOmissions } := by
  have hsome : (calculate thinCatalog {} (.object []) none).toOption.isSome := by decide +kernel
  have hrules : (Pass.run ⟨.object [], thinCatalog.services, none, {}⟩ thinCatalog.rules).toOption.map
      (fun p => p.pricedRules thinCatalog.rules) = some [{ id := "desk-1", formula := "2" }] := by
    decide +kernel
  cases hq : calculate thinCatalog {} (.object []) none with
  | error halt => simp [hq, Except.toOption] at hsome
  | ok q =>
    obtain ⟨p, hrun, hquote⟩ := calculate_pricedRules hq
    refine ⟨p, q, hrun, rfl, ?_, hquote⟩
    have hgiven : givenAnswers (.object []) = .object [] := rfl
    rw [hgiven] at hrun
    rw [hrun] at hrules
    exact Option.some.inj hrules

end Quote
end Tariff
