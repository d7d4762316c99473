/-
# What a selection decides

A selection of services decides two things about a rule: whether its service refuses it, and whether it is
discounted. Two selections that decide both alike for every rule may word their reasons differently, but they give
the same prices and outcomes (`Pass.run_of_treatsAlike`), and for the price of one rule it is enough that they decide
alike about the rules up to that one (`Pass.find?_of_treatsAlike`).

| selection | refuses a rule of service `desk` | discounts |
| --- | --- | --- |
| none | no | no |
| `desk` | no | if `desk` is the service that brings discounts |
| `lamp` | yes | if `lamp` is |
-/

import Tariff.Proofs.Pricing.Forward

namespace Tariff

namespace Rule

variable {r : Rule}

/-- Whether the service of a rule, if it has one, is selected. -/
def isAdmitted (r : Rule) (s : Selection) : Bool :=
  match nonEmpty? r.service with
  | some service => s.has service
  | none => true

/-- A rule that is not admitted is turned down for its service, with a reason. -/
theorem exists_serviceCheck_eq_false {s : Selection} (h : r.isAdmitted s = false) :
    ∃ reason, r.serviceCheck s = some ⟨false, reason⟩ := by
  unfold isAdmitted at h
  unfold serviceCheck
  cases s with
  | none => split at h <;> cases h
  | some services =>
    split at h
    · rename_i service hservice
      have hnot : services.contains service = false := h
      exact ⟨"service " ++ service ++ " not selected", by simp only [hservice, hnot]; rfl⟩
    · cases h

/-- A rule that is admitted is never turned down for its service. -/
theorem applies_of_serviceCheck {s : Selection} (h : r.isAdmitted s) {verdict : Verdict}
    (hcheck : r.serviceCheck s = some verdict) : verdict.applies := by
  unfold serviceCheck at hcheck
  split at hcheck
  · rename_i services service hservice
    have hselected : services.contains service := by simpa [isAdmitted, hservice, Selection.has] using h
    rw [if_pos hselected] at hcheck
    obtain rfl := Option.some.inj hcheck
    rfl
  · cases hcheck

/-- **An active rule applies if its service is selected and its trigger holds.** The service is looked at first,
so a trigger that cannot be checked does no harm to a rule that is not selected. -/
theorem map_applies_verdict (r : Rule) (s : Selection) (answers : Json) :
    (r.verdict s answers).map Verdict.applies =
      if r.isActive && r.isAdmitted s then
        (r.triggerCheck answers).map fun check => (check.map Verdict.applies).getD true
      else .ok false := by
  unfold verdict
  cases r.isActive with
  | false => rfl
  | true =>
    cases hadmitted : r.isAdmitted s with
    | false =>
      obtain ⟨reason, hcheck⟩ := exists_serviceCheck_eq_false hadmitted
      rw [hcheck]
      rfl
    | true =>
      rw [if_neg (by decide), if_pos (by decide)]
      split
      · rename_i reason hcheck
        exact absurd (applies_of_serviceCheck hadmitted hcheck) Bool.false_ne_true
      · rcases r.triggerCheck answers with halt | _ | ⟨_ | _, reason⟩
        · rfl
        · rfl
        · rfl
        · rfl

end Rule

namespace Selection

/-- Two selections decide alike about a rule: whether its service refuses it, and whether it is discounted. -/
structure TreatsAlike (s t : Selection) (discountService : String) (r : Rule) : Prop where
  admitted : r.isActive → r.isAdmitted s = r.isAdmitted t
  discounted : Method.ofName? r.method ≠ some .formula → r.isDiscountable → r.discount.isPositive →
    s.names discountService = t.names discountService

end Selection

namespace Setting

/-- A setting with another selection. -/
def selecting (setting : Setting) (t : Selection) : Setting := { setting with selection := t }

/-- Another selection decides about a rule as that of a setting. -/
abbrev TreatsAlike (setting : Setting) (t : Selection) (r : Rule) : Prop :=
  setting.selection.TreatsAlike t setting.terms.discountService r

end Setting

namespace Rule

variable {setting : Setting} {t : Selection} {r : Rule}

/-- Selections that treat a rule alike let it apply or not alike, though perhaps for other reasons. -/
theorem exists_verdict_of_treatsAlike (h : setting.TreatsAlike t r) {answers : Json} {verdict : Verdict}
    (hv : r.verdict setting.selection answers = .ok verdict) :
    ∃ other, r.verdict t answers = .ok other ∧ other.applies = verdict.applies := by
  have hsame : (r.isActive && r.isAdmitted setting.selection) = (r.isActive && r.isAdmitted t) := by
    cases hactive : r.isActive with
    | false => rfl
    | true => rw [h.admitted hactive]
  have hmap := r.map_applies_verdict t answers
  rw [← hsame, ← map_applies_verdict, hv] at hmap
  cases hother : r.verdict t answers with
  | error halt => simp [hother, Except.map] at hmap
  | ok other =>
    rw [hother] at hmap
    exact ⟨other, rfl, Except.ok.inj hmap⟩

/-- Selections that treat a rule alike give it the same price: what a selection does to a price is the discount.
-/
theorem raw_of_treatsAlike (h : setting.TreatsAlike t r) (ledger : Ledger) (j : Journal) :
    r.raw (setting.selecting t) ledger j = r.raw setting ledger j := by
  unfold raw
  split
  · rfl
  · rename_i hmethod
    have hdiscounted : r.isDiscounted (setting.selecting t) = r.isDiscounted setting := by
      unfold isDiscounted Setting.discounts Setting.selecting
      cases hd : r.isDiscountable with
      | false => simp
      | true =>
        cases hp : r.discount.isPositive with
        | false => simp
        | true => simp [h.discounted hmethod hd hp]
    unfold isDiscounted at hdiscounted
    unfold byMethod
    rw [hdiscounted]
    rfl

end Rule

namespace Pass

variable {setting : Setting} {t : Selection} {p q p' : Pass} {r : Rule} {rules : List Rule}

/-- Two passes have come to the same prices and outcomes. -/
structure SameBooks (p q : Pass) : Prop where
  ledger : p.ledger = q.ledger
  outcomes : p.outcomes = q.outcomes

/-- Passes with the same books have seen the same rules. -/
theorem SameBooks.hasSeen (h : p.SameBooks q) (id : String) : q.hasSeen id = p.hasSeen id := by
  rw [Pass.hasSeen, Pass.hasSeen, h.ledger, h.outcomes]

/-- **A rule that two selections treat alike adds the same to the books.** Whether it applies and what it costs
is the same; only the reasons that are noted may differ. -/
theorem Next.exists_of_treatsAlike (h : Next setting p r p') (halike : setting.TreatsAlike t r)
    (hq : p.SameBooks q) : ∃ q', Next (setting.selecting t) q r q' ∧ p'.SameBooks q' := by
  cases h with
  | duplicate hseen =>
    exact ⟨_, .duplicate ((hq.hasSeen r.id).trans hseen), hq.ledger, hq.outcomes⟩
  | skipped hseen hv happlies =>
    obtain ⟨other, hother, hsame⟩ := Rule.exists_verdict_of_treatsAlike halike hv
    refine ⟨_, .skipped ((hq.hasSeen r.id).trans hseen) hother (hsame.trans happlies), hq.ledger, ?_⟩
    simp only [hq.outcomes]
  | @priced verdict raw value hseen hnew hv happlies hraw hvalue =>
    obtain ⟨other, hother, hsame⟩ := Rule.exists_verdict_of_treatsAlike halike hv
    -- The same raw price comes with the journal of the other pass.
    obtain ⟨⟨rawValue, outcome⟩, notes, -, rfl, hraw'⟩ := (r.writes_raw setting p.ledger).exists_notes hraw
    have hotherRaw := hraw' q.journal
    rw [← Rule.raw_of_treatsAlike halike, hq.ledger] at hotherRaw
    have hotherNew : q.ledger.has r.id = false := hq.ledger ▸ hnew
    refine ⟨_, .priced ((hq.hasSeen r.id).trans hseen) hotherNew hother (hsame ▸ happlies) hotherRaw hvalue, ?_, ?_⟩
    · simp only [hq.ledger]
    · simp only [hq.outcomes, Rule.putRaw]

/-- **Selections that treat every rule alike give the same prices and outcomes.** By induction on the rules,
with the same books at every step. -/
theorem run_of_treatsAlike (h : run setting rules = .ok p) (halike : ∀ r ∈ rules, setting.TreatsAlike t r) :
    ∃ q, run (setting.selecting t) rules = .ok q ∧ p.SameBooks q := by
  refine run_induction (motive := fun rules p => (∀ r ∈ rules, setting.TreatsAlike t r) →
    ∃ q, run (setting.selecting t) rules = .ok q ∧ p.SameBooks q) ?_ ?_ h halike
  · exact fun _ => ⟨{}, rfl, rfl, rfl⟩
  · intro earlier p r p' _ ih hnext halike
    obtain ⟨q, hq, hbooks⟩ := ih fun s hs => halike s (List.mem_append_left _ hs)
    obtain ⟨q', hnext', hbooks'⟩ := hnext.exists_of_treatsAlike (halike r (by simp)) hbooks
    exact ⟨q', run_concat_eq_ok_iff.2 ⟨q, hq, hnext'⟩, hbooks'⟩

end Pass

/-! ### The rules up to one -/

/-- The rules up to the first one with an id. -/
def Rule.upTo (rules : List Rule) (id : String) : List Rule :=
  rules.take (rules.findIdx (fun r => r.id = id) + 1)

/-- The rules up to an id have that id among theirs. -/
theorem Rule.mem_ids_upTo {rules : List Rule} {id : String} (h : id ∈ rules.map Rule.id) :
    id ∈ (upTo rules id).map Rule.id := by
  obtain ⟨r, hr, rfl⟩ := List.mem_map.1 h
  have hlt : rules.findIdx (fun s => s.id = r.id) < rules.length :=
    List.findIdx_lt_length_of_exists ⟨r, hr, by simp⟩
  have hid := List.findIdx_getElem (p := fun (s : Rule) => decide (s.id = r.id)) (w := hlt)
  refine List.mem_map.2 ⟨rules[rules.findIdx fun s => s.id = r.id], ?_, by simpa using hid⟩
  exact List.mem_take_iff_getElem.2 ⟨_, by omega, rfl⟩

namespace Pass

variable {setting : Setting} {t : Selection} {p q : Pass} {rules : List Rule} {id : String}

/-- **The price of a rule needs like treatment of the rules up to it only.** What comes further down can add no
price under its id, and changes none. -/
theorem find?_of_treatsAlike (hp : run setting rules = .ok p) (hq : run (setting.selecting t) rules = .ok q)
    (hid : id ∈ rules.map Rule.id) (halike : ∀ r ∈ Rule.upTo rules id, setting.TreatsAlike t r) :
    p.ledger.find? id = q.ledger.find? id := by
  have hsplit : Rule.upTo rules id ++ rules.drop (rules.findIdx (fun r => r.id = id) + 1) = rules :=
    List.take_append_drop _ _
  rw [← hsplit] at hp hq
  obtain ⟨p₁, hp₁, hpc⟩ := exists_continues hp
  obtain ⟨q₁, hq₁, hqc⟩ := exists_continues hq
  obtain ⟨q₂, hq₂, hbooks⟩ := run_of_treatsAlike hp₁ halike
  obtain rfl : q₂ = q₁ := Except.ok.inj (hq₂.symm.trans hq₁)
  have hmem := Rule.mem_ids_upTo hid
  calc p.ledger.find? id
      = p₁.ledger.find? id := hpc.settled id (by rwa [ids_of_run hp₁, Formula.mem_firsts])
    _ = q₂.ledger.find? id := by rw [hbooks.ledger]
    _ = q.ledger.find? id := (hqc.settled id (by rwa [ids_of_run hq₁, Formula.mem_firsts])).symm

end Pass
end Tariff
