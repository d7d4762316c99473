/-
# The price of a formula that comes to nothing

A rule whose formula fails counts zero, and so does one without a formula. That zero is the raw price, which is then
brought within the bounds of the rule as any other: what goes into the ledger is the number within the bounds that is
next to zero, rounded, and it is zero just if that number is less than half a cent in size
(`Pass.price_of_cameToNothing`).

| formula | minimum | maximum | price |
| --- | --- | --- | --- |
| `1 / 0` | | | `0.0` |
| `1 / 0` | `0.004` | | `0.0` |
| `1 / 0` | `50` | | `50.0` |
| none | | `-3` | `-3.0` |
-/

import Tariff.Proofs.Number.HalfCent
import Tariff.Proofs.Pricing.Bookkeeping
import Tariff.Proofs.Pricing.Forward

namespace Tariff

namespace Rule

/-- A formula that fails, or that there is none of, has the raw price zero. -/
theorem value_of_raw {r : Rule} {setting : Setting} {ledger : Ledger} {j : Journal} {raw : Raw}
    (h : r.raw setting ledger j = .ok raw)
    (hnothing : raw.outcome = .failed ∨ Method.ofName? r.method = some .formula ∧ trim r.formula = "") :
    raw.value = .zero := by
  rcases gives_of_raw h with ⟨-, hgives⟩ | ⟨hmethod, hgives⟩
  · cases hgives with
    | blank => rfl
    | number hne =>
      rcases hnothing with houtcome | ⟨-, hempty⟩
      · cases houtcome
      · simp [hempty] at hne
    | failure => rfl
  · rcases hnothing with houtcome | ⟨hformula, -⟩
    · cases hgives.outcome_eq.symm.trans houtcome
    · exact absurd hformula hmethod

end Rule

namespace Pass

variable {setting : Setting} {q : Pass} {r : Rule} {rules : List Rule}

/-- A rule has come to nothing in a pass: its formula has failed, or it has been priced without one. -/
def CameToNothing (q : Pass) (r : Rule) : Prop :=
  lookup? r.id q.outcomes = some .failed ∨
    lookup? r.id q.outcomes = some .evaluated ∧ Method.ofName? r.method = some .formula ∧ trim r.formula = ""

/-- **A formula that comes to nothing has the price next to zero within its bounds,** in cents. That price is zero
just if the bounds admit a number less than half a cent in size. -/
theorem price_of_cameToNothing (h : run setting rules = .ok q) (hfirst : Rule.first? rules r.id = some r)
    (hnothing : q.CameToNothing r) :
    ∃ value, q.ledger.find? r.id = some (r.price value) ∧
      cents (Rule.clamp r.lowest r.highest .zero) = .ok value ∧
      (value.isZero ↔ (Rule.clamp r.lowest r.highest .zero).abs.lt Binary64.halfCent) := by
  obtain ⟨-, before, after, rfl, hnew⟩ := Rule.first?_eq_some_iff.1 hfirst
  rcases applies_or_skipped h hnew with happlies | ⟨hskipped, -⟩
  · obtain ⟨p, raw, value, -, -, hraw, -, hvalue, hprice, houtcome⟩ := exists_raw_of_run h hnew happlies
    have hzero : raw.value = .zero := by
      refine Rule.value_of_raw hraw ?_
      rcases hnothing with hfailed | ⟨-, hblank⟩
      · exact .inl (Option.some.inj (houtcome.symm.trans hfailed))
      · exact .inr hblank
    rw [hzero] at hvalue
    exact ⟨value, hprice, hvalue, Binary64.isZero_iff_of_roundMoney (cents_eq_ok_iff.1 hvalue)⟩
  · rcases hnothing with hfailed | ⟨hevaluated, -⟩
    · cases hskipped.symm.trans hfailed
    · cases hskipped.symm.trans hevaluated

/-- A failing rule with a minimum below half a cent. -/
def slightRule : Rule := {
  id := "slight", formula := "1 / 0", lowest := some (Decimal.toBinary64 ⟨false, 4, -3⟩) }

/-- A failing rule with a minimum above that. -/
def dearRule : Rule := { id := "dear", formula := "(", lowest := some (.ofNat 50) }

/-- Both formulas fail; one price stays at zero, the other is held up by a lower bound. -/
theorem price_of_cameToNothing_dearRule : ∃ q slight dear,
    run ⟨.object [], [], none, {}⟩ [slightRule, dearRule] = .ok q ∧
      q.ledger.find? "slight" = some (slightRule.price slight) ∧ slight.isZero ∧
      q.ledger.find? "dear" = some (dearRule.price dear) ∧ dear.isZero = false := by
  have hreturns : (run ⟨.object [], [], none, {}⟩ [slightRule, dearRule]).toOption.map outcomes =
      some [("slight", .failed), ("dear", .failed)] := by decide +kernel
  obtain ⟨q, hq, houtcomes⟩ := exists_of_toOption_map hreturns
  obtain ⟨slight, hslight, -, hnone⟩ :=
    price_of_cameToNothing hq (r := slightRule) rfl (.inl (by rw [houtcomes]; rfl))
  obtain ⟨dear, hdear, -, hsome⟩ :=
    price_of_cameToNothing hq (r := dearRule) rfl (.inl (by rw [houtcomes]; rfl))
  refine ⟨q, slight, dear, hq, hslight, hnone.2 (by decide +kernel), hdear, ?_⟩
  rw [← Bool.not_eq_true, hsome]
  decide +kernel

/-- **Not every formula that comes to nothing is priced at zero.** The zero is clamped as any other number is,
so a lower bound above zero makes a price of it. -/
theorem not_forall_isZero_of_cameToNothing : ¬ ∀ (setting : Setting) (rules : List Rule) (q : Pass) (r : Rule)
    (price : Price), run setting rules = .ok q → Rule.first? rules r.id = some r → q.CameToNothing r →
      q.ledger.find? r.id = some price → price.value.isZero := by
  intro hall
  have hreturns : (run ⟨.object [], [], none, {}⟩ [dearRule]).toOption.map
      (fun q => (lookup? "dear" q.outcomes, (q.ledger.find? "dear").map Price.value)) =
        some (some .failed, some (.ofNat 50)) := by decide +kernel
  obtain ⟨q, hq, hfound⟩ := exists_of_toOption_map hreturns
  obtain ⟨hfailed, hprice⟩ := Prod.mk.inj hfound
  obtain ⟨price, hprice, hvalue⟩ := Option.map_eq_some_iff.1 hprice
  have hzero := hall _ _ q dearRule price hq rfl (.inl hfailed) hprice
  rw [hvalue] at hzero
  revert hzero
  decide +kernel

end Pass
end Tariff
