/-
# Prices and the bounds of their rules

A raw price is raised to the lower bound, then lowered to the upper one, and only then rounded to cents. Rounding keeps
the order, so a price is within the bounds as they are rounded, though perhaps not as they are written: at the upper
bound `2.675` a price can be `2.68`.

| bounds | price |
| --- | --- |
| neither | the raw price, rounded |
| lower one | at least the lower bound, rounded |
| upper one | at most the upper bound, rounded |
| lower one not above the upper one | between the two, rounded |
| lower one above the upper one | at most the upper bound, rounded |
-/

import Tariff.Proofs.Pricing.Finite

namespace Tariff

open Binary64

/-- Rounding to cents keeps the order. -/
theorem cents_mono {x y x' y' : Binary64} (h : x.le y) (hx : cents x = .ok x') (hy : cents y = .ok y') : x'.le y' :=
  roundMoney_mono h (cents_eq_ok_iff.1 hx) (cents_eq_ok_iff.1 hy)

namespace Rule

variable {lowest highest : Option Binary64} {low high x : Binary64}

/-- The upper bound lowers what the lower one has raised. -/
theorem clamp_some_highest (lowest : Option Binary64) (high x : Binary64) :
    clamp lowest (some high) x = if high.lt (clamp lowest none x) then high else clamp lowest none x := rfl

/-- A number within bounds is at most the upper one, whatever the lower one is. -/
theorem clamp_le (lowest : Option Binary64) (hhigh : high.isNan = false) (hx : x.isNan = false) :
    (clamp lowest (some high) x).le high := by
  rw [clamp_some_highest]
  cases habove : high.lt (clamp lowest none x) with
  | true => exact le_refl hhigh
  | false => exact le_of_lt_eq_false hhigh ((isNan_clamp lowest none x).trans hx) habove

/-- Without an upper bound, the clamped price is at least the lower one. -/
theorem le_clamp_none (hlow : low.isNan = false) (hx : x.isNan = false) : low.le (clamp (some low) none x) := by
  show low.le (if x.lt low then low else x)
  cases hbelow : x.lt low with
  | true => exact le_refl hlow
  | false => exact le_of_lt_eq_false hx hlow hbelow

/-- A number within bounds is at least the lower one if that is not above the upper one. -/
theorem le_clamp (hlow : low.isNan = false) (hx : x.isNan = false)
    (hcrossed : ∀ high, highest = some high → high.lt low = false) : low.le (clamp (some low) highest x) := by
  have hraised := le_clamp_none hlow hx
  cases highest with
  | none => exact hraised
  | some high =>
    rw [clamp_some_highest]
    cases habove : high.lt (clamp (some low) none x) with
    | true => exact le_of_lt_eq_false (isNan_of_lt habove).1 hlow (hcrossed high rfl)
    | false => exact hraised

/-- A price keeps the bounds of a rule, as they are rounded. A bound that is no number binds nothing. -/
structure KeepsBounds (r : Rule) (price : Binary64) : Prop where
  highest : ∀ high top, r.highest = some high → high.isNan = false → cents high = .ok top → price.le top
  lowest : ∀ low bottom, r.lowest = some low → low.isNan = false →
    (∀ high, r.highest = some high → high.lt low = false) → cents low = .ok bottom → bottom.le price

/-- **A clamped and rounded price keeps the rounded bounds of its rule**: the upper one always, since it is
applied last, and the lower one if the bounds are not crossed. -/
theorem keepsBounds_of_cents {r : Rule} {price : Binary64} (hx : x.isNan = false)
    (h : cents (clamp r.lowest r.highest x) = .ok price) : r.KeepsBounds price where
  highest high top hhigh hnumber htop := by
    rw [hhigh] at h
    exact cents_mono (clamp_le r.lowest hnumber hx) h htop
  lowest low bottom hlow hnumber hcrossed hbottom := by
    rw [hlow] at h
    exact cents_mono (le_clamp hnumber hx hcrossed) hbottom h

end Rule

namespace Pass

variable {setting : Setting} {q : Pass} {rules : List Rule}

/-- **Prices keep the bounds of their rules.** A price is the raw price of the first rule with its id, brought within the
bounds and then rounded. If the raw price is a number, the price is at most the rounded upper bound, even if the lower
one is above that, and at least the rounded lower bound if it is not. -/
theorem keepsBounds_of_run (h : run setting rules = .ok q) {price : Price} (hprice : price ∈ q.ledger.prices) :
    ∃ before r after p raw, rules = before ++ r :: after ∧ r.id = price.ruleId ∧ r.id ∉ before.map Rule.id ∧
      run setting before = .ok p ∧ r.raw setting p.ledger p.journal = .ok raw ∧
      lookup? r.id q.outcomes = some raw.outcome ∧
      cents (Rule.clamp r.lowest r.highest raw.value) = .ok price.value ∧
      (raw.value.isNan = false → r.KeepsBounds price.value) := by
  obtain ⟨r, hfirst, -⟩ := (books_of_run h).prices price hprice
  obtain ⟨hid, before, after, rfl, hnew⟩ := Rule.first?_eq_some_iff.1 hfirst
  have hfound := Ledger.find?_of_mem hprice
  rw [← hid] at hfound
  rcases applies_or_skipped h hnew with happlies | ⟨-, hnone⟩
  · obtain ⟨p, raw, value, hp, -, hraw, -, hvalue, hvalued, houtcome⟩ := exists_raw_of_run h hnew happlies
    obtain rfl : price = r.price value := Option.some.inj (hfound.symm.trans hvalued)
    exact ⟨before, r, after, p, raw, rfl, hid, hnew, hp, hraw, houtcome, hvalue,
      fun hnumber => Rule.keepsBounds_of_cents hnumber hvalue⟩
  · cases hnone.symm.trans hfound

/-- A rule whose bounds cross, with an upper bound between two cents, and one whose lower bound is negative. -/
def boundedRules : List Rule := [
  { id := "capped", method := "simple", basePrice := .ofNat 40, lowest := some (.ofNat 5),
    highest := some (Decimal.toBinary64 ⟨false, 2675, -3⟩) },
  { id := "rebate", method := "simple", basePrice := Decimal.toBinary64 ⟨true, 3, 0⟩,
    lowest := some (Decimal.toBinary64 ⟨true, 1004, -3⟩) }]

/-- One price is held down by an upper bound that rounding moves, the other one is held up by a lower bound
below zero. -/
theorem keepsBounds_boundedRules : ∃ q capped rebate, run ⟨.object [], [], none, {}⟩ boundedRules = .ok q ∧
    q.ledger.prices = [capped, rebate] ∧ capped.value.le (Decimal.toBinary64 ⟨false, 268, -2⟩) ∧
    (Decimal.toBinary64 ⟨true, 1, 0⟩).le rebate.value := by
  have hreturns : (run ⟨.object [], [], none, {}⟩ boundedRules).toOption.map (fun q => q.ledger.prices) =
      some [⟨"capped", Decimal.toBinary64 ⟨false, 268, -2⟩, none, none, none⟩,
        ⟨"rebate", Decimal.toBinary64 ⟨true, 1, 0⟩, none, none, none⟩] := by decide +kernel
  obtain ⟨q, hq, hprices⟩ := exists_of_toOption_map hreturns
  have hkeeps {price : Price} (hprice : price ∈ q.ledger.prices) (hnumber : price.value.isNan = false) {r : Rule}
      (hr : Rule.first? boundedRules price.ruleId = some r) : r.KeepsBounds price.value := by
    obtain ⟨before, other, after, -, raw, hrules, hid, hnew, -, -, -, hvalue, hkeeps⟩ := keepsBounds_of_run hq hprice
    have hother := Rule.first?_eq_some_iff.2 ⟨hid, before, after, hrules, hnew⟩
    obtain rfl : other = r := Option.some.inj (hother.symm.trans hr)
    refine hkeeps ?_
    rw [← Rule.isNan_clamp other.lowest other.highest, ← isNan_of_roundMoney (cents_eq_ok_iff.1 hvalue), hnumber]
  refine ⟨q, _, _, hq, hprices, ?_, ?_⟩
  · exact (hkeeps (by rw [hprices]; exact List.mem_cons_self) (by decide +kernel) rfl).highest _ _ rfl
      (by decide +kernel) (by decide +kernel)
  · exact (hkeeps (by rw [hprices]; exact List.mem_cons_of_mem _ List.mem_cons_self) (by decide +kernel) rfl).lowest _ _
      rfl (by decide +kernel) nofun (by decide +kernel)

end Pass
end Tariff
