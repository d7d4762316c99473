/-
# The shortest decimal reads back

`Binary64.shortestMagnitude` searches for a decimal whose nearest binary64 is the magnitude it began
with. What the search finds has been compared with it; where the search finds nothing, every digit of
the magnitude is taken, of which there are at most 1383 and which are exact; and leaving out trailing
zeros changes no number. So the result always reads back (`toBinary64_shortestMagnitude`), no matter
how many digits the search tries.

The two facts on decimals behind this are of use elsewhere: a power of ten may be moved between digits
and exponent (`toBinary64_mul_ten_pow`), and the number of digits of a whole number places it between
two powers of ten (`digitCount_le_iff`).
-/

import Tariff.Number.Shortest

namespace Tariff

attribute [local instance (high)] instPowNat

/-! ### The number of digits -/

theorem digitCount_pos (n : Nat) : 0 < digitCount n := by
  unfold digitCount
  split <;> omega

/-- A number has at most `k` digits just if it is below the power of ten with `k` noughts. -/
theorem digitCount_le_iff {k : Nat} (hk : 0 < k) (n : Nat) : digitCount n ≤ k ↔ n < 10 ^ k := by
  fun_induction digitCount n generalizing k with
  | case1 n hn =>
    have : 10 ^ 1 ≤ 10 ^ k := Nat.pow_le_pow_right (by decide) hk
    omega
  | case2 n hn ih =>
    cases k with
    | zero => omega
    | succ k =>
      rcases Nat.eq_zero_or_pos k with rfl | hk
      · have := digitCount_pos (n / 10)
        omega
      · rw [Nat.add_le_add_iff_right, ih hk, Nat.div_lt_iff_lt_mul (by decide), Nat.pow_succ]

/-- A nought at the end is one more digit. -/
theorem digitCount_mul_ten {n : Nat} (h : n ≠ 0) : digitCount (n * 10) = digitCount n + 1 := by
  rw [digitCount, if_neg (by omega), Nat.mul_div_cancel _ (by decide)]

/-! ### Quotients of equal ratio -/

/-- Extending a fraction does not change what it is rounded to, ties included. -/
theorem nearestEven_mul_right {c : Nat} (hc : 0 < c) (num den : Nat) :
    nearestEven (num * c) (den * c) = nearestEven num den := by
  have hlt (a b : Nat) : 2 * (a * c) < b * c ↔ 2 * a < b := by
    rw [← Nat.mul_assoc]
    exact Nat.mul_lt_mul_right hc
  have hgt (a b : Nat) : b * c < 2 * (a * c) ↔ b < 2 * a := by
    rw [← Nat.mul_assoc]
    exact Nat.mul_lt_mul_right hc
  simp only [nearestEven, Nat.mul_div_mul_right _ _ hc, Nat.mul_mod_mul_right, hlt, hgt]

namespace Binary64

/-- Nor does it change the 53 binary digits that are kept. -/
theorem nearestUnits_mul_right {c : Nat} (hc : 0 < c) (num den : Nat) :
    nearestUnits (num * c) (den * c) = nearestUnits num den := by
  simp only [nearestUnits, Nat.mul_div_mul_right _ _ hc]
  rw [Nat.mul_right_comm den c, nearestEven_mul_right hc]

/-- Only the ratio of numerator and denominator matters. -/
theorem ofRatio_mul_right {c : Nat} (hc : 0 < c) (negative : Bool) (num den : Nat) :
    ofRatio negative (num * c) (den * c) = ofRatio negative num den := by
  simp only [ofRatio, nearestUnits_mul_right hc]

/-- The sign goes through the rounding of a quotient. -/
theorem negative_of_ofRatio {negative s : Bool} {num den : Nat} {m : Magnitude}
    (h : ofRatio negative num den = finite s m) : s = negative := by
  unfold ofRatio at h
  split at h
  · exact (finite.inj h).1.symm
  · simp at h

end Binary64

namespace Decimal

/-- The nearest number has the sign of the decimal. -/
theorem negative_of_toBinary64 {d : Decimal} {s : Bool} {m : Magnitude}
    (h : d.toBinary64 = .finite s m) : s = d.negative := by
  unfold toBinary64 at h
  split at h
  · exact (Binary64.finite.inj h).1.symm
  split at h
  · simp at h
  split at h
  · exact Binary64.negative_of_ofRatio h
  · exact Binary64.negative_of_ofRatio h

/-! ### Powers of ten -/

/-- A nought at the end, made up for in the exponent, does not change the number. -/
theorem toBinary64_mul_ten (negative : Bool) (digits : Nat) (exponent : Int) :
    toBinary64 ⟨negative, digits * 10, exponent - 1⟩ = toBinary64 ⟨negative, digits, exponent⟩ := by
  by_cases hzero : digits = 0
  · simp [toBinary64, hzero]
  have htop : top ⟨negative, digits * 10, exponent - 1⟩ = top ⟨negative, digits, exponent⟩ := by
    simp only [top, digitCount_mul_ten hzero]
    omega
  simp only [toBinary64, htop, hzero, Nat.mul_eq_zero, false_or, Nat.reduceEqDiff]
  split
  · rfl
  split
  · rfl
  rcases Int.lt_trichotomy exponent 0 with hneg | rfl | hpos
  · rw [if_neg (by omega), if_neg (by omega),
      show (-(exponent - 1)).toNat = (-exponent).toNat + 1 by omega, Nat.pow_succ,
      Nat.mul_right_comm, Binary64.ofRatio_mul_right (by decide)]
  · rw [if_neg (by decide), if_pos (by decide), Nat.mul_right_comm]
    simpa using Binary64.ofRatio_mul_right (c := 10) (by decide) negative (digits * Binary64.unitsPerOne) 1
  · rw [if_pos (by omega), if_pos (by omega), show exponent.toNat = (exponent - 1).toNat + 1 by omega,
      Nat.pow_succ, Nat.mul_assoc digits, Nat.mul_comm 10]

/-- **A power of ten may stand in the digits or in the exponent.** So two decimals can be brought to one
exponent, and be compared by their digits. -/
theorem toBinary64_mul_ten_pow (negative : Bool) (digits k : Nat) (exponent : Int) :
    toBinary64 ⟨negative, digits * 10 ^ k, exponent - k⟩ = toBinary64 ⟨negative, digits, exponent⟩ := by
  induction k with
  | zero => simp
  | succ k ih =>
    rw [← ih, ← toBinary64_mul_ten negative (digits * 10 ^ k) (exponent - k), Nat.pow_succ,
      Nat.mul_assoc, show exponent - (k + 1 : Nat) = exponent - k - 1 by omega]

/-- The same decimal with `k` powers of ten in the digits that were in the exponent. -/
def widen (d : Decimal) (k : Nat) : Decimal := ⟨d.negative, d.digits * 10 ^ k, d.exponent - k⟩

/-- Nor do any number of noughts. -/
theorem toBinary64_widen (d : Decimal) (k : Nat) : (d.widen k).toBinary64 = d.toBinary64 :=
  toBinary64_mul_ten_pow d.negative d.digits k d.exponent

/-- **Taking noughts off the end does not change the number**, so a decimal may be written as short as it goes.
-/
theorem toBinary64_strip (d : Decimal) : d.strip.toBinary64 = d.toBinary64 := by
  fun_induction strip d with
  | case1 d h ih =>
    rw [ih, ← toBinary64_mul_ten d.negative (d.digits / 10) (d.exponent + 1),
      Nat.div_mul_cancel (Nat.dvd_of_mod_eq_zero h.2), Int.add_sub_cancel]
  | case2 => rfl

theorem strip_negative (d : Decimal) : d.strip.negative = d.negative := by
  fun_induction strip d with
  | case1 d h ih => rw [ih]
  | case2 => rfl

end Decimal

namespace Binary64

/-! ### Every digit of a magnitude -/

/-- One has `2 ^ 1074` units: the unit is the smallest binary64 above zero. -/
theorem unitsPerOne_eq : unitsPerOne = 2 ^ (1074 : Nat) := by
  unfold unitsPerOne
  exact Eq.refl _

/-- Multiplying by a power of ten and dividing by that of two leaves the power of five, with no remainder. -/
theorem mul_ten_pow_div_two_pow (n k : Nat) : n * 10 ^ k / 2 ^ k = n * 5 ^ k := by
  rw [show 10 = 5 * 2 by rfl, Nat.mul_pow, ← Nat.mul_assoc, Nat.mul_div_cancel _ (Nat.two_pow_pos k)]

/-- In `1074` places a magnitude is exact. -/
theorem everyDigit_eq (m : Magnitude) : everyDigit m = ⟨false, m.units * 5 ^ (1074 : Nat), -1074⟩ := by
  rw [everyDigit, unitsPerOne_eq, mul_ten_pow_div_two_pow]

/-- Where the first digit of a magnitude stands when all its digits are written out. -/
theorem top_everyDigit (m : Magnitude) :
    (everyDigit m).top = digitCount (m.units * 5 ^ (1074 : Nat)) - 1075 := by
  simp only [everyDigit_eq, Decimal.top]
  omega

/-- No magnitude but zero has its first digit behind the 324th place. -/
theorem top_everyDigit_ge {m : Magnitude} (h : m.units ≠ 0) : -324 ≤ (everyDigit m).top := by
  have hle : 10 ^ 750 ≤ m.units * 5 ^ 1074 :=
    Nat.le_trans (by decide +kernel) (Nat.mul_le_mul_right _ (Nat.pos_of_ne_zero h))
  have hcount : ¬ digitCount (m.units * 5 ^ 1074) ≤ 750 := by
    rw [digitCount_le_iff (by decide)]
    exact Nat.not_lt.2 hle
  rw [top_everyDigit]
  omega

/-- No magnitude has its first digit before the 309th place. -/
theorem top_everyDigit_le (m : Magnitude) : (everyDigit m).top ≤ 309 := by
  have hunits : m.units ≤ 2 ^ 2098 := by
    have := m.units_lt
    unfold Magnitude.limit at this
    exact Nat.le_of_lt this
  have hlt : m.units * 5 ^ 1074 < 10 ^ 1384 :=
    Nat.lt_of_le_of_lt (Nat.mul_le_mul_right _ hunits) (by decide +kernel)
  have hcount := (digitCount_le_iff (by decide) _).2 hlt
  rw [top_everyDigit]
  omega

/-- **All digits of a magnitude give it back**: written out in full, it is read without rounding. -/
theorem toBinary64_everyDigit {m : Magnitude} (h : m.units ≠ 0) :
    (everyDigit m).toBinary64 = finite false m := by
  have hdigits : (everyDigit m).digits ≠ 0 := by
    rw [everyDigit_eq]
    exact Nat.mul_ne_zero h (Nat.ne_of_gt (Nat.pow_pos (by decide)))
  have hbelow := top_everyDigit_ge h
  have habove := top_everyDigit_le m
  have hratio (k : Nat) : ofRatio false (m.units * 5 ^ k * 2 ^ k) (10 ^ k) = finite false m := by
    have := ofRatio_mul_right (c := 10 ^ k) (Nat.pow_pos (by decide)) false m.units 1
    rw [Nat.mul_assoc, ← Nat.mul_pow]
    simpa only [Nat.one_mul, ofRatio_units] using this
  have hexponent : (everyDigit m).exponent = -1074 := rfl
  rw [Decimal.toBinary64, if_neg (by omega), if_neg (by omega), if_neg (by omega), everyDigit_eq,
    unitsPerOne_eq]
  exact hratio 1074

/-! ### The result of the search -/

/-- A decimal is taken from a grid only if it is read back as the magnitude, since this was tried. -/
theorem toBinary64_of_onGrid? {m : Magnitude} {e : Int} {d : Decimal} (h : onGrid? m e = some d) :
    d.toBinary64 = finite false m := by
  simpa using List.find?_some h

theorem onGrid?_negative {m : Magnitude} {e : Int} {d : Decimal} (h : onGrid? m e = some d) :
    d.negative = false := by
  have hmem := List.mem_of_find?_eq_some h
  split at hmem
  · rcases hmem with _ | ⟨_, _ | ⟨_, ⟨⟩⟩⟩ <;> rfl
  · rcases hmem with _ | ⟨_, _ | ⟨_, ⟨⟩⟩⟩ <;> rfl

/-- **The shortest decimal of a magnitude reads back as that magnitude.** It was found on some grid, where it
was tried; if on none, all digits were taken, and these are exact. -/
theorem toBinary64_shortestMagnitude (m : Magnitude) :
    (shortestMagnitude m).toBinary64 = finite false m := by
  unfold shortestMagnitude
  split
  · rename_i h
    obtain rfl : m = .zero := Magnitude.ext_units h
    rfl
  · rename_i h
    rw [Decimal.toBinary64_strip]
    cases hfind : ((List.range 17).map fun (n : Nat) => topExponent m.units - n).findSome? (onGrid? m) with
    | none => exact toBinary64_everyDigit h
    | some d =>
      obtain ⟨e, -, he⟩ := List.exists_of_findSome?_eq_some hfind
      exact toBinary64_of_onGrid? he

theorem shortestMagnitude_negative (m : Magnitude) : (shortestMagnitude m).negative = false := by
  unfold shortestMagnitude
  split
  · rfl
  · rw [Decimal.strip_negative]
    cases hfind : ((List.range 17).map fun (n : Nat) => topExponent m.units - n).findSome? (onGrid? m) with
    | none => rfl
    | some d =>
      obtain ⟨e, -, he⟩ := List.exists_of_findSome?_eq_some hfind
      exact onGrid?_negative he

theorem exists_shortestMagnitude (m : Magnitude) :
    ∃ n exponent, shortestMagnitude m = ⟨false, n, exponent⟩ :=
  ⟨_, _, by rw [← shortestMagnitude_negative m]⟩

end Binary64
end Tariff
