/-
# Decimals in a number of places

Rounding to a number of places counts a decimal in units of the last place (`Decimal.inPlaces`), and refuses it just
where that takes more digits than allowed (`Decimal.roundTo_eq`). The count keeps the order of decimals, does not
depend on how they are written, and is exact where a decimal has no further places. Of decimals with different
exponents it is compared in as many places as both need.

The sign is kept outside and touches no tie (`Binary64.roundTo_neg`).
-/

import Tariff.Proofs.Number.Order

namespace Tariff

attribute [local instance (high)] instPowNat

theorem nearestUp_mono {a b : Nat} (h : a ≤ b) (den : Nat) : nearestUp a den ≤ nearestUp b den :=
  Nat.div_le_div_right (Nat.add_le_add_right (Nat.mul_le_mul_left 2 h) den)

/-- Extending a fraction does not change what it is rounded to. -/
theorem nearestUp_mul_right {c : Nat} (hc : 0 < c) (num den : Nat) :
    nearestUp (num * c) (den * c) = nearestUp num den := by
  unfold nearestUp
  rw [← Nat.mul_assoc, ← Nat.mul_assoc, ← Nat.add_mul, Nat.mul_div_mul_right _ _ hc]

/-- If a quotient is rounded to more than `k`, it is at least `k`: rounding goes up by one at most. -/
theorem le_of_le_nearestUp {k n den : Nat} (hden : 0 < den) (h : k + 1 ≤ nearestUp n den) :
    k * den ≤ n := by
  have hle : (k + 1) * (2 * den) ≤ 2 * n + den :=
    (Nat.le_div_iff_mul_le (Nat.mul_pos (by decide) hden)).1 h
  have hsplit : (k + 1) * (2 * den) = 2 * (k * den) + 2 * den := by
    rw [Nat.succ_mul, Nat.mul_left_comm]
  omega

namespace Decimal

/-- The decimal `n · 10 ^ exponent` in units of `10 ^ -places`, halves away from zero. -/
def inPlaces (places : Int) (n : Nat) (exponent : Int) : Nat :=
  if 0 ≤ exponent + places then n * 10 ^ (exponent + places).toNat
  else nearestUp n (10 ^ (-(exponent + places)).toNat)

/-- A nought at the end, made up for in the exponent, changes nothing in the places that are kept. -/
theorem inPlaces_mul_ten (places : Int) (n : Nat) (exponent : Int) :
    inPlaces places (n * 10) (exponent - 1) = inPlaces places n exponent := by
  unfold inPlaces
  rcases Int.lt_trichotomy (exponent + places) 0 with hneg | hzero | hpos
  · rw [if_neg (by omega), if_neg (by omega),
      show (-(exponent - 1 + places)).toNat = (-(exponent + places)).toNat + 1 by omega, Nat.pow_succ,
      nearestUp_mul_right (by decide)]
  · rw [if_neg (by omega), if_pos (by omega), show (-(exponent - 1 + places)).toNat = 1 by omega,
      Nat.pow_one, Nat.mul_comm, nearestUp_mul_left (by decide), hzero, Int.toNat_zero, Nat.pow_zero, Nat.mul_one]
  · rw [if_pos (by omega), if_pos (by omega),
      show (exponent + places).toNat = (exponent - 1 + places).toNat + 1 by omega, Nat.pow_succ,
      Nat.mul_assoc, Nat.mul_comm 10]

/-- A power of ten may stand in the digits or in the exponent. -/
theorem inPlaces_mul_ten_pow (places : Int) (n k : Nat) (exponent : Int) :
    inPlaces places (n * 10 ^ k) (exponent - k) = inPlaces places n exponent := by
  induction k with
  | zero => simp
  | succ k ih =>
    rw [← ih, ← inPlaces_mul_ten places (n * 10 ^ k) (exponent - k), Nat.pow_succ, Nat.mul_assoc,
      show exponent - (k + 1 : Nat) = exponent - k - 1 by omega]

/-- More digits at the same exponent give at least as much in the places that are kept. -/
theorem inPlaces_mono (places : Int) {a b : Nat} (h : a ≤ b) (exponent : Int) :
    inPlaces places a exponent ≤ inPlaces places b exponent := by
  unfold inPlaces
  split
  · exact Nat.mul_le_mul_right _ h
  · exact nearestUp_mono h _

/-- Less than a tenth of the last place is nothing. -/
theorem inPlaces_eq_zero {places : Int} {n : Nat} {exponent : Int}
    (h : n = 0 ∨ top ⟨false, n, exponent⟩ + places < -1) : inPlaces places n exponent = 0 := by
  rcases h with rfl | h
  · unfold inPlaces nearestUp
    split
    · exact Nat.zero_mul _
    · have hpos : 0 < 10 ^ (-(exponent + places)).toNat := Nat.pow_pos (by decide)
      exact Nat.div_eq_of_lt (by omega)
  · have hcount := digitCount_pos n
    simp only [top] at h
    obtain ⟨k, hk⟩ : ∃ k, (-(exponent + places)).toNat = k + 1 :=
      Nat.exists_eq_add_of_le' (show 1 ≤ (-(exponent + places)).toNat by omega)
    have hn : n < 10 ^ k := (digitCount_le_iff (by omega) n).1 (by omega)
    rw [inPlaces, if_neg (by omega), hk, nearestUp, Nat.pow_succ]
    exact Nat.div_eq_of_lt (by omega)

/-- Rounding to places by cases: what is too small becomes zero, what has its first digit too far up or would
get more than 28 digits breaks off, and anything else has its digits in so many places. -/
theorem roundTo_eq (places : Int) (negative : Bool) (n : Nat) (exponent : Int) :
    roundTo places ⟨negative, n, exponent⟩ =
      if n = 0 ∨ top ⟨false, n, exponent⟩ + places < -1 then some ⟨negative, 0, -places⟩
      else if precision < top ⟨false, n, exponent⟩ + places + 1 then none
      else if precision < digitCount (inPlaces places n exponent) then none
      else some ⟨negative, inPlaces places n exponent, -places⟩ := rfl

/-- Whether rounding is refused does not depend on the sign. -/
theorem roundTo_eq_none_iff (places : Int) (negative : Bool) (n : Nat) (exponent : Int) :
    roundTo places ⟨negative, n, exponent⟩ = none ↔
      n ≠ 0 ∧ -1 ≤ top ⟨false, n, exponent⟩ + places ∧
        (precision < top ⟨false, n, exponent⟩ + places + 1 ∨
          precision < digitCount (inPlaces places n exponent)) := by
  rw [roundTo_eq]
  repeat' split
  all_goals simp
  all_goals omega

/-- Where rounding gives a decimal, it is the one in that number of places. -/
theorem eq_of_roundTo {places : Int} {negative : Bool} {n : Nat} {exponent : Int} {d : Decimal}
    (h : roundTo places ⟨negative, n, exponent⟩ = some d) :
    d = ⟨negative, inPlaces places n exponent, -places⟩ ∧
      digitCount (inPlaces places n exponent) ≤ precision := by
  rw [roundTo_eq] at h
  split at h
  · rename_i hzero
    rw [inPlaces_eq_zero hzero]
    refine ⟨(Option.some.inj h).symm, ?_⟩
    decide +kernel
  split at h
  · cases h
  split at h
  · cases h
  · rename_i hcount
    exact ⟨(Option.some.inj h).symm, Nat.not_lt.1 hcount⟩

/-- Of two decimals the one that is read as less is not more in any number of places. -/
theorem inPlaces_le_of_toBinary64 (places : Int) {n k : Nat} {e f : Int} {a b : Magnitude}
    (hn : toBinary64 ⟨false, n, e⟩ = .finite false a) (hk : toBinary64 ⟨false, k, f⟩ = .finite false b)
    (h : a.units < b.units) : inPlaces places n e ≤ inPlaces places k f := by
  -- Both in as many places as either needs.
  obtain ⟨i, hi⟩ : ∃ i : Nat, e - i = min e f := ⟨(e - min e f).toNat, by omega⟩
  obtain ⟨j, hj⟩ : ∃ j : Nat, f - j = min e f := ⟨(f - min e f).toNat, by omega⟩
  rw [← toBinary64_mul_ten_pow false n i, hi] at hn
  rw [← toBinary64_mul_ten_pow false k j, hj] at hk
  rw [← inPlaces_mul_ten_pow places n i, ← inPlaces_mul_ten_pow places k j, hi, hj]
  refine inPlaces_mono places (Nat.le_of_not_lt fun hlt => ?_) _
  have hle := toBinary64_le (Nat.le_of_lt hlt) (min e f)
  rw [hn, hk, Binary64.finite_le_finite] at hle
  exact Nat.not_lt.2 hle h

/-- A decimal that needs no more places is not changed. -/
theorem toBinary64_inPlaces {places : Int} {exponent : Int} (h : -places ≤ exponent) (negative : Bool) (n : Nat) :
    toBinary64 ⟨negative, inPlaces places n exponent, -places⟩ = toBinary64 ⟨negative, n, exponent⟩ := by
  rw [inPlaces, if_pos (by omega), ← toBinary64_mul_ten_pow negative n (exponent + places).toNat exponent,
    show exponent - ((exponent + places).toNat : Nat) = -places by omega]

/-! ### The sign -/

/-- A decimal with the other sign becomes the number with the other sign. -/
theorem toBinary64_not (negative : Bool) (n : Nat) (exponent : Int) :
    toBinary64 ⟨!negative, n, exponent⟩ = (toBinary64 ⟨negative, n, exponent⟩).neg := by
  have hratio (num den : Nat) :
      Binary64.ofRatio (!negative) num den = (Binary64.ofRatio negative num den).neg := by
    unfold Binary64.ofRatio
    split <;> rfl
  simp only [toBinary64, top, hratio]
  repeat' split
  all_goals rfl

/-- Rounding to places is odd: the sign goes through, and breaking off does not depend on it. -/
theorem roundTo_not (places : Int) (negative : Bool) (n : Nat) (exponent : Int) :
    (roundTo places ⟨!negative, n, exponent⟩).map toBinary64 =
      ((roundTo places ⟨negative, n, exponent⟩).map toBinary64).map Binary64.neg := by
  simp only [roundTo, top]
  repeat' split
  all_goals simp only [Option.map_some, Option.map_none, toBinary64_not]

end Decimal

namespace Binary64

/-- Rounding ignores the sign. -/
theorem roundTo_neg (places : Int) (x : Binary64) : x.neg.roundTo places = (x.roundTo places).map neg := by
  cases x with
  | finite s m => exact Decimal.roundTo_not places s _ _
  | infinite s => rfl
  | nan => rfl

end Binary64
end Tariff
