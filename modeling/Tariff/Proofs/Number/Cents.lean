/-
# Which amounts can be rounded to cents

Money is rounded on the shortest decimal, and a result of more than `Decimal.precision` digits is
refused. The digits of an amount depend on its size alone: up to one below `10 ^ 26` there are at most 26
in front of the point, and every amount from the binary64 next to `10 ^ 26` on has more. So the amounts
that cannot be rounded are those and the infinities (`Binary64.IsBeyondCents`).

An amount between `10 ^ 26 - 1` and `10 ^ 26` would be rounded up to one digit more, but there is none:
the nearest number to both is the same.
-/

import Tariff.Proofs.Number.Places

namespace Tariff

attribute [local instance (high)] instPowNat

/-- Noughts at the end count as digits, each of them as one. -/
theorem digitCount_mul_ten_pow {n : Nat} (h : n ≠ 0) (k : Nat) :
    digitCount (n * 10 ^ k) = digitCount n + k := by
  induction k with
  | zero => simp
  | succ k ih =>
    rw [Nat.pow_succ, ← Nat.mul_assoc,
      digitCount_mul_ten (Nat.mul_ne_zero h (Nat.ne_of_gt (Nat.pow_pos (by decide)))), ih, Nat.add_assoc]

namespace Decimal

/-! ### Between powers of ten -/

/-- A power of ten written as one digit, or with noughts in front of a lower exponent, is the same number. -/
theorem toBinary64_ten_pow {exponent k : Int} (h : exponent ≤ k) :
    toBinary64 ⟨false, 1, k⟩ = toBinary64 ⟨false, 10 ^ (k - exponent).toNat, exponent⟩ := by
  rw [← toBinary64_mul_ten_pow false 1 (k - exponent).toNat k, Nat.one_mul,
    show k - ((k - exponent).toNat : Nat) = exponent by omega]

/-- A decimal is at least the power of ten of its first digit, and stays so when both are rounded to binary64.
-/
theorem ten_pow_le_toBinary64 {n : Nat} {exponent k : Int} (hn : n ≠ 0)
    (h : k ≤ top ⟨false, n, exponent⟩) :
    (toBinary64 ⟨false, 1, k⟩).le (toBinary64 ⟨false, n, exponent⟩) := by
  have hcount := digitCount_pos n
  simp only [top] at h
  rcases Int.lt_or_le exponent k with hlt | hle
  · rw [toBinary64_ten_pow (Int.le_of_lt hlt)]
    refine toBinary64_le (Nat.not_lt.1 fun hsmall => ?_) _
    have := (digitCount_le_iff (show 0 < (k - exponent).toNat by omega) n).2 hsmall
    omega
  · rw [← toBinary64_mul_ten_pow false n (exponent - k).toNat exponent,
      show exponent - ((exponent - k).toNat : Nat) = k by omega]
    exact toBinary64_le (Nat.mul_pos (Nat.pos_of_ne_zero hn) (Nat.pow_pos (by decide))) _

/-- A decimal is at most the next power of ten above its first digit, and stays so when both are rounded to
binary64. -/
theorem toBinary64_le_ten_pow {n : Nat} {exponent k : Int} (h : top ⟨false, n, exponent⟩ < k) :
    (toBinary64 ⟨false, n, exponent⟩).le (toBinary64 ⟨false, 1, k⟩) := by
  have hcount := digitCount_pos n
  simp only [top] at h
  rw [toBinary64_ten_pow (show exponent ≤ k by omega)]
  refine toBinary64_le (Nat.le_of_lt ?_) _
  exact (digitCount_le_iff (by omega) n).1 (by omega)

end Decimal

namespace Binary64

/-- The shortest decimal of a number reaches a power of ten just if the number does. -/
theorem le_top_shortestMagnitude_iff {power m : Magnitude} {k : Int}
    (hpower : Decimal.toBinary64 ⟨false, 1, k⟩ = finite false power) (htop : (shortestMagnitude power).top = k)
    (hm : m.units ≠ 0) : k ≤ (shortestMagnitude m).top ↔ power.units ≤ m.units := by
  obtain ⟨n, exponent, hd⟩ := exists_shortestMagnitude m
  have hback := toBinary64_shortestMagnitude m
  rw [hd] at hback
  rw [← finite_le_finite, ← hpower, ← hback, hd]
  constructor
  · intro h
    refine Decimal.ten_pow_le_toBinary64 ?_ h
    rintro rfl
    exact hm (congrArg Magnitude.units (finite.inj hback).2.symm)
  · intro hle
    refine Int.not_lt.1 fun hlt => ?_
    have hge := Decimal.toBinary64_le_ten_pow hlt
    rw [hpower, hback, finite_le_finite] at hle hge
    obtain rfl : m = power := Magnitude.ext_units (Nat.le_antisymm hge hle)
    rw [← hd, htop] at hlt
    exact Int.lt_irrefl k hlt

end Binary64

/-! ### Amounts -/

/-- The binary64 next to `10 ^ 26`. -/
def Magnitude.beyondCents : Magnitude where
  units := 100000000000000004764729344 * 2 ^ (1074 : Nat)
  units_lt := by
    unfold limit
    decide +kernel
  spacing_dvd := by decide +kernel

namespace Binary64

/-- The first amount that cannot be rounded to cents is `10 ^ 26`, as near as binary64 comes to it. -/
theorem toBinary64_ten_pow_26 : Decimal.toBinary64 ⟨false, 1, 26⟩ = finite false .beyondCents := by
  decide +kernel

/-- The decimal just below `10 ^ 26` is rounded to the same binary64; so between the two lies no amount on which
they could differ. -/
theorem toBinary64_below_ten_pow_26 :
    Decimal.toBinary64 ⟨false, 10 ^ (26 : Nat) - 1, 0⟩ = finite false .beyondCents := by
  decide +kernel

/-- Decimals that round to more digits than allowed are at least the least such amount. -/
theorem beyondCents_le_of_roundTo {n : Nat} {exponent : Int} {negative : Bool}
    (h : Decimal.roundTo 2 ⟨negative, n, exponent⟩ = none) :
    (finite false .beyondCents).le (Decimal.toBinary64 ⟨false, n, exponent⟩) := by
  obtain ⟨hn, -, hmany⟩ := (Decimal.roundTo_eq_none_iff ..).1 h
  simp only [Decimal.precision] at hmany
  by_cases htop : 26 ≤ Decimal.top ⟨false, n, exponent⟩
  · rw [← toBinary64_ten_pow_26]
    exact Decimal.ten_pow_le_toBinary64 hn htop
  have hcount := hmany.resolve_left (by omega)
  simp only [Decimal.top] at htop
  rw [Decimal.inPlaces] at hcount
  split at hcount
  · rw [digitCount_mul_ten_pow hn] at hcount
    omega
  -- Rounded up to `10 ^ 28` cents, so at least `10 ^ 28 - 1` of them.
  have hlarge : 10 ^ 28 ≤ nearestUp n (10 ^ (-(exponent + 2)).toNat) :=
    Nat.not_lt.1 fun hlt => Nat.not_le.2 hcount ((digitCount_le_iff (by decide) _).2 hlt)
  have hcents : (10 ^ 28 - 1) * 10 ^ (-(exponent + 2)).toNat ≤ n :=
    le_of_le_nearestUp (Nat.pow_pos (by decide)) hlarge
  rw [← toBinary64_below_ten_pow_26,
    ← Decimal.toBinary64_mul_ten_pow false (10 ^ 26 - 1) (-exponent).toNat 0,
    show (0 : Int) - ((-exponent).toNat : Nat) = exponent by omega]
  refine Decimal.toBinary64_le (Nat.le_trans ?_ hcents) _
  rw [show (-exponent).toNat = 2 + (-(exponent + 2)).toNat by omega, Nat.pow_add, ← Nat.mul_assoc]
  exact Nat.mul_le_mul_right _ (by decide)

/-- The shortest decimal of `10 ^ 26` has its first digit at the 26th place; with two places behind the point
that is one digit too many for the 28 of the context. -/
theorem top_shortestMagnitude_beyondCents : (shortestMagnitude .beyondCents).top = 26 := by
  decide +kernel

/-- An amount has 27 digits in front of the point just from there on. -/
theorem top_shortestMagnitude_ge {m : Magnitude} (h : Magnitude.beyondCents.units ≤ m.units) :
    26 ≤ (shortestMagnitude m).top := by
  refine (le_top_shortestMagnitude_iff toBinary64_ten_pow_26 top_shortestMagnitude_beyondCents ?_).2 h
  exact Nat.ne_of_gt (Nat.lt_of_lt_of_le (by decide +kernel) h)

/-- Rounding to cents breaks off just from `10 ^ 26` on. Below, the result has at most 28 digits; from there on
it would have more. -/
theorem roundTo_shortest_eq_none_iff (negative : Bool) (m : Magnitude) :
    (shortest negative m).roundTo 2 = none ↔ Magnitude.beyondCents.units ≤ m.units := by
  obtain ⟨n, exponent, hd⟩ := exists_shortestMagnitude m
  have hback := toBinary64_shortestMagnitude m
  rw [hd] at hback
  have hsigned : shortest negative m = ⟨negative, n, exponent⟩ := by rw [shortest, hd]
  rw [hsigned]
  constructor
  · intro h
    rw [← finite_le_finite, ← hback]
    exact beyondCents_le_of_roundTo h
  · intro h
    have htop := top_shortestMagnitude_ge h
    rw [hd] at htop
    refine (Decimal.roundTo_eq_none_iff ..).2 ⟨?_, by omega, .inl (by simp only [Decimal.precision]; omega)⟩
    rintro rfl
    obtain rfl : m = .zero := (finite.inj hback).2.symm
    revert h
    decide +kernel

/-- An amount from `10 ^ 26` on, whatever its sign, or an infinity. -/
def IsBeyondCents (x : Binary64) : Prop := (finite false .beyondCents).le x.abs

/-- **Only amounts from `10 ^ 26` on and infinities cannot be rounded to cents.** -/
theorem roundMoney_eq_none_iff (x : Binary64) : x.roundMoney = none ↔ x.IsBeyondCents := by
  unfold IsBeyondCents
  cases x with
  | finite s m =>
    rw [roundMoney, roundTo, Option.map_eq_none_iff, roundTo_shortest_eq_none_iff, abs, finite_le_finite]
  | infinite s => exact ⟨fun _ => le_infinite rfl, fun _ => rfl⟩
  | nan => exact iff_of_false (Option.some_ne_none nan) Bool.false_ne_true

end Binary64
end Tariff
