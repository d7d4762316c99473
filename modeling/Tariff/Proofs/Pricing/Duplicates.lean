/-
# Rules that come too late

A rule whose id has come before is ignored, but for a warning that names the id. So a pass depends on such a rule by its
id alone: two lists with the same ids in the same places, and the same first rule for each id (`Rule.SameFirsts`), make
the same pass, down to its journal (`Pass.run_eq_of_sameFirsts`).

| in both lists | has to be the same |
| --- | --- |
| the first rule with an id | the rule |
| any later one with it | the id |
-/

import Mathlib.Data.List.Induction
import Tariff.Proofs.Pricing.Bookkeeping

namespace Tariff

namespace Rule

/-- Lists with the same ids in the same places and the same first rule for each. -/
structure SameFirsts (rules rules' : List Rule) : Prop where
  ids : rules.map Rule.id = rules'.map Rule.id
  first (id : String) : first? rules id = first? rules' id

/-- A rule that is not behind another with its id is the same in both lists. -/
theorem SameFirsts.of_concat {rules rules' : List Rule} {r r' : Rule} (h : SameFirsts (rules ++ [r]) (rules' ++ [r'])) :
    SameFirsts rules rules' ∧ r.id = r'.id ∧ (r.id ∉ rules.map Rule.id → r = r') := by
  have hids := h.ids
  simp only [List.map_append, List.map_singleton] at hids
  obtain ⟨hids, hid⟩ := List.append_inj' hids rfl
  have hid : r.id = r'.id := List.singleton_inj.1 hid
  refine ⟨⟨hids, fun id => ?_⟩, hid, fun hnew => ?_⟩
  · by_cases hmem : id ∈ rules.map Rule.id
    · obtain ⟨s, hs⟩ := exists_first?_of_mem hmem
      obtain ⟨s', hs'⟩ := exists_first?_of_mem (hids ▸ hmem)
      rw [hs, hs', ← first?_append_of_eq_some hs [r], h.first, first?_append_of_eq_some hs']
    · rw [first?_eq_none_iff.2 hmem, first?_eq_none_iff.2 (hids ▸ hmem)]
  · have hnew' : r'.id ∉ rules'.map Rule.id := hids ▸ hid ▸ hnew
    have hfirst := h.first r.id
    rw [first?_concat_of_notMem hnew, hid, first?_concat_of_notMem hnew'] at hfirst
    exact Option.some.inj hfirst

end Rule

namespace Pass

variable {setting : Setting} {p : Pass}

/-- Of a rule that comes too late a step takes the id. -/
theorem step_eq_of_hasSeen {r r' : Rule} (hid : r.id = r'.id) (h : p.hasSeen r.id) :
    step setting p r = step setting p r' := by
  rw [step, dif_pos h, step, dif_pos (hid ▸ h), Rule.entry, Rule.entry, hid]

/-- **A pass depends on a rule that comes too late by its id alone.** It is noted as a duplicate, and for that
nothing but its id is read. -/
theorem run_eq_of_sameFirsts (setting : Setting) {rules rules' : List Rule} (h : Rule.SameFirsts rules rules') :
    run setting rules = run setting rules' := by
  -- From the back, where the rules in front say whether a rule comes too late.
  induction rules using List.reverseRecOn generalizing rules' with
  | nil => rw [List.map_eq_nil_iff.1 h.ids.symm]
  | append_singleton rules r ih =>
    cases rules' using List.reverseRecOn with
    | nil => simpa using h.ids
    | append_singleton rules' r' =>
      obtain ⟨hsame, hid, hnew⟩ := h.of_concat
      rw [run_append, run_append, ← ih hsame]
      cases hrun : run setting rules with
      | error halt => rfl
      | ok p =>
        have hstep : step setting p r = step setting p r' := by
          by_cases hmem : r.id ∈ rules.map Rule.id
          · exact step_eq_of_hasSeen hid ((hasSeen_iff_of_run hrun).2 hmem)
          · rw [hnew hmem]
        simp only [Except.bind, List.foldlM_cons, hstep]

end Pass
end Tariff
