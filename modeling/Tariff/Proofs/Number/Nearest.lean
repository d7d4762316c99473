/-
# Rounding is exact

A number is rounded on its shortest decimal, without any binary arithmetic. A decimal writes a rational number
(`Decimal.toRat`), and rounding it to a number of places takes the multiple of `10 ^ -places` nearest to that, of two
equally near the one further from zero (`IsNearest`). There is one such multiple; negating a number negates it, a
larger number has no smaller one, and a number that is a multiple already is its own. Whether rounding is refused is a
matter of its digits alone (`Decimal.roundTo_eq_ite`).

| decimal | places | nearest multiple | digits | |
| --- | --- | --- | ---: | --- |
| `2.675` | 2 | `2.68` | 3 | |
| `-2.675` | 2 | `-2.68` | 3 | |
| `9.996` | 2 | `10.00` | 4 | one digit more in front of the point |
| `0.5` | 0 | `1` | 1 | |
| `5 * 10 ^ -324` | 2 | `0.00` | 1 | |
| `10 ^ 26` | 2 | `10 ^ 26` | 29 | refused |
-/

import Mathlib.Algebra.Order.Field.Basic
import Mathlib.Algebra.Order.Ring.Rat
import Mathlib.Tactic.Linarith
import Mathlib.Tactic.Positivity
import Mathlib.Tactic.Ring
import Tariff.Proofs.Number.Cents

namespace Tariff

attribute [local instance (high)] instPowNat

/-! ### Nearest multiples -/

/-- A multiple of `10 ^ -places`. -/
def IsMultiple (places : ℕ) (q : ℚ) : Prop := ∃ k : ℤ, q = k / 10 ^ places

/-- The multiple of `10 ^ -places` that is nearest to a number, of two equally near the one further from zero. -/
structure IsNearest (places : ℕ) (x q : ℚ) : Prop where
  multiple : IsMultiple places q
  nearest : ∀ r, IsMultiple places r → |x - q| ≤ |x - r|
  away : ∀ r, IsMultiple places r → |x - r| = |x - q| → |r| ≤ |q|

variable {places : ℕ} {x y q r : ℚ}

theorem isMultiple_zero (places : ℕ) : IsMultiple places 0 := ⟨0, by simp⟩

theorem IsMultiple.neg (h : IsMultiple places q) : IsMultiple places (-q) := by
  obtain ⟨k, rfl⟩ := h
  exact ⟨-k, by push_cast; ring⟩

/-- A number is no further from the larger of two others just if it is not below the middle between them. -/
theorem abs_sub_le_abs_sub_iff (hlt : r < q) : |x - q| ≤ |x - r| ↔ r + q ≤ 2 * x := by
  rw [← sq_le_sq, ← sub_nonneg, show (x - r) ^ 2 - (x - q) ^ 2 = (q - r) * (2 * x - (r + q)) by ring,
    mul_nonneg_iff_of_pos_left (sub_pos.2 hlt), sub_nonneg]

/-- Of two points, the lower is at least as near just if the number does not pass their middle. -/
theorem abs_sub_le_abs_sub_iff' (hlt : r < q) : |x - r| ≤ |x - q| ↔ 2 * x ≤ r + q := by
  rw [← sq_le_sq, ← sub_nonneg, show (x - q) ^ 2 - (x - r) ^ 2 = (q - r) * (r + q - 2 * x) by ring,
    mul_nonneg_iff_of_pos_left (sub_pos.2 hlt), sub_nonneg]

namespace IsNearest

/-- **Negating a number negates the nearest multiple.** Ties go away from zero, which is the same on both sides.
-/
theorem neg (h : IsNearest places x q) : IsNearest places (-x) (-q) where
  multiple := h.multiple.neg
  nearest r hr := by
    have := h.nearest (-r) hr.neg
    rwa [← abs_neg (-x - -q), ← abs_neg (-x - r), show -(-x - -q) = x - q by ring, show -(-x - r) = x - -r by ring]
  away r hr htie := by
    rw [← abs_neg r, abs_neg q]
    refine h.away (-r) hr.neg ?_
    rwa [← abs_neg (-x - -q), ← abs_neg (-x - r), show -(-x - -q) = x - q by ring,
      show -(-x - r) = x - -r by ring] at htie

/-- **A larger number has no smaller nearest multiple.** If the multiples were the other way round, one of the
numbers would be nearer to the other one. -/
theorem mono (hq : IsNearest places x q) (hr : IsNearest places y r) (h : x ≤ y) : q ≤ r := by
  refine not_lt.1 fun hlt => ?_
  -- Both numbers lie in the middle between both multiples, and the multiples are equally far from zero.
  have hx := (abs_sub_le_abs_sub_iff hlt).1 (hq.nearest r hr.multiple)
  have hy := (abs_sub_le_abs_sub_iff' hlt).1 (hr.nearest q hq.multiple)
  obtain rfl : x = y := by linarith
  have htie := le_antisymm (hq.nearest r hr.multiple) (hr.nearest q hq.multiple)
  have habs := le_antisymm (hr.away q hq.multiple htie) (hq.away r hr.multiple htie.symm)
  have hopposite : q = -r := (abs_eq_abs.1 habs).resolve_left hlt.ne'
  -- So the middle is zero, and zero is a multiple.
  have hzero : x = 0 := by linarith
  have hnear := hq.nearest 0 (isMultiple_zero places)
  rw [hzero, sub_zero, abs_zero, zero_sub, abs_neg] at hnear
  have hq0 : q = 0 := abs_nonpos_iff.1 hnear
  linarith

/-- **There is only one nearest multiple.** Of two equally near, the one farther from zero is taken, and that
settles it. -/
theorem unique (hq : IsNearest places x q) (hr : IsNearest places x r) : q = r :=
  le_antisymm (hq.mono hr le_rfl) (hr.mono hq le_rfl)

/-- A multiple is nearest to itself. -/
theorem eq_self (hq : IsNearest places x q) (h : IsMultiple places x) : q = x := by
  have hnear := hq.nearest x h
  rw [sub_self, abs_zero] at hnear
  exact (sub_eq_zero.1 (abs_nonpos_iff.1 hnear)).symm

end IsNearest

/-- The whole number within half a unit of an amount that is not negative, the upper one of two, gives the nearest
multiple. -/
theorem isNearest_div (places : ℕ) {x : ℚ} {k : ℕ} (hx : 0 ≤ x) (hbelow : x < k + 1 / 2) (habove : k ≤ x + 1 / 2) :
    IsNearest places (x / 10 ^ places) (k / 10 ^ places) where
  multiple := ⟨k, by simp⟩
  nearest := by
    rintro _ ⟨j, rfl⟩
    rw [← sub_div, ← sub_div, abs_div, abs_div]
    refine div_le_div_of_nonneg_right ?_ (abs_nonneg _)
    -- Any other multiple is one away from `k` at least, so half of one away from `x`.
    have hnear : |x - k| ≤ 1 / 2 := abs_le.2 ⟨by linarith, by linarith⟩
    by_cases hj : j = k
    · simp [hj]
    · have hone : (1 : ℚ) ≤ |(j - k : ℤ)| := by
        exact_mod_cast Int.one_le_abs (sub_ne_zero.2 hj)
      have htriangle := abs_sub_abs_le_abs_sub ((j : ℚ) - k) (x - k)
      push_cast at hone
      rw [abs_sub_comm x j]
      have : (j : ℚ) - k - (x - k) = j - x := by ring
      rw [this] at htriangle
      linarith
  away := by
    rintro _ ⟨j, rfl⟩ htie
    rw [← sub_div, ← sub_div, abs_div, abs_div] at htie
    rw [abs_div, abs_div]
    refine div_le_div_of_nonneg_right ?_ (abs_nonneg _)
    have hpow : |(10 : ℚ) ^ places| ≠ 0 := by positivity
    have hsame : |x - j| = |x - k| := (div_left_inj' hpow).1 htie
    rcases abs_eq_abs.1 hsame with heq | heq
    · rw [show (j : ℚ) = k by linarith]
    · -- At the same distance on the other side of `x`, so below `k` and not below zero.
      have hle : j ≤ k := by
        have : (j : ℚ) < (k + 1 : ℤ) := by push_cast; linarith
        exact Int.lt_add_one_iff.1 (Int.cast_lt.1 this)
      have hnonneg : 0 ≤ j := by
        have : ((-1 : ℤ) : ℚ) < j := by push_cast; linarith
        have := Int.cast_lt.1 this
        omega
      rw [abs_of_nonneg (by exact_mod_cast hnonneg), abs_of_nonneg (by positivity)]
      exact_mod_cast hle

/-! ### Decimals -/

namespace Decimal

/-- The number that a decimal writes. -/
def toRat (d : Decimal) : ℚ := (if d.negative then -1 else 1) * (d.digits * 10 ^ d.exponent)

/-- A minus in front turns the number over. -/
theorem toRat_true (n : Nat) (e : Int) : toRat ⟨true, n, e⟩ = -toRat ⟨false, n, e⟩ := by
  simp [toRat]

/-- The decimal in units of the last place, rounded: the whole number within half a unit, the upper one of two. -/
theorem inPlaces_near (places : ℕ) (n : Nat) (e : Int) :
    (n * 10 ^ (e + places) : ℚ) < inPlaces places n e + 1 / 2 ∧
      (inPlaces places n e : ℚ) ≤ n * 10 ^ (e + places) + 1 / 2 := by
  unfold inPlaces
  split
  · rename_i hwhole
    obtain ⟨j, hj⟩ : ∃ j : ℕ, e + places = j := ⟨(e + places).toNat, by omega⟩
    rw [hj, Int.toNat_natCast, zpow_natCast]
    push_cast
    exact ⟨by linarith, by linarith⟩
  · rename_i hparts
    obtain ⟨j, hj⟩ : ∃ j : ℕ, e + places = -j := ⟨(-(e + places)).toNat, by omega⟩
    have hpos : (0 : ℚ) < 10 ^ j := by positivity
    rw [hj, neg_neg, Int.toNat_natCast, zpow_neg, zpow_natCast, ← div_eq_mul_inv, nearestUp]
    have hdiv := Nat.div_add_mod (2 * n + 10 ^ j) (2 * 10 ^ j)
    have hmod := Nat.mod_lt (2 * n + 10 ^ j) (show 0 < 2 * 10 ^ j by positivity)
    set k := (2 * n + 10 ^ j) / (2 * 10 ^ j)
    have hlow : 2 * 10 ^ j * k ≤ 2 * n + 10 ^ j := by omega
    have hhigh : 2 * n + 10 ^ j < 2 * 10 ^ j * k + 2 * 10 ^ j := by omega
    have hlow' : (2 * 10 ^ j * k : ℚ) ≤ 2 * n + 10 ^ j := by exact_mod_cast hlow
    have hhigh' : (2 * n + 10 ^ j : ℚ) < 2 * 10 ^ j * k + 2 * 10 ^ j := by exact_mod_cast hhigh
    constructor
    · rw [div_lt_iff₀ hpos]
      linarith
    · rw [← sub_le_iff_le_add, le_div_iff₀ hpos]
      linarith

/-- What a decimal is rounded to: the nearest multiple, written with that number of places and the same sign. -/
structure IsRounded (places : ℕ) (d q : Decimal) : Prop where
  nearest : IsNearest places d.toRat q.toRat
  exponent : q.exponent = -places
  negative : q.negative = d.negative

/-- The digits in so many places make the nearest multiple, with ties away from zero: this is what rounding
comes to where it does not break off. -/
theorem isRounded_inPlaces (places : ℕ) (d : Decimal) :
    d.IsRounded places ⟨d.negative, inPlaces places d.digits d.exponent, -places⟩ where
  nearest := by
    obtain ⟨negative, n, e⟩ := d
    have hten : (10 : ℚ) ≠ 0 := by norm_num
    obtain ⟨hbelow, habove⟩ := inPlaces_near places n e
    have hnonneg : (0 : ℚ) ≤ n * 10 ^ (e + places) := mul_nonneg n.cast_nonneg (zpow_nonneg (by norm_num) _)
    have hpositive := isNearest_div places hnonneg hbelow habove
    have hdecimal : (n * 10 ^ (e + places) : ℚ) / 10 ^ places = toRat ⟨false, n, e⟩ := by
      rw [zpow_add₀ hten, zpow_natCast, ← mul_assoc, mul_div_cancel_right₀ _ (pow_ne_zero _ hten)]
      simp [toRat]
    have hmultiple : (inPlaces places n e : ℚ) / 10 ^ places = toRat ⟨false, inPlaces places n e, -places⟩ := by
      simp [toRat, div_eq_mul_inv]
    rw [hdecimal, hmultiple] at hpositive
    cases negative with
    | false => exact hpositive
    | true =>
      rw [toRat_true, toRat_true]
      exact hpositive.neg
  exponent := rfl
  negative := rfl

/-! ### What is refused -/

theorem le_nearestUp (n den : Nat) : n / den ≤ nearestUp n den := by
  rw [nearestUp, ← Nat.mul_div_mul_left n den (show 0 < 2 by decide)]
  exact Nat.div_le_div_right (Nat.le_add_right _ _)

/-- A decimal that reaches the last place has all the digits from its first one to there. -/
theorem lt_digitCount_inPlaces {places : Int} {n : Nat} {e : Int} (hn : n ≠ 0) {t : Nat}
    (ht : top ⟨false, n, e⟩ + places = t) : t < digitCount (inPlaces places n e) := by
  have hcount := digitCount_pos n
  simp only [top] at ht
  unfold inPlaces
  split
  · rw [digitCount_mul_ten_pow hn]
    omega
  · rename_i hparts
    obtain ⟨j, hj⟩ : ∃ j : Nat, (-(e + places)).toNat = j := ⟨_, rfl⟩
    rw [hj]
    refine Nat.not_le.1 fun hle => ?_
    rcases Nat.eq_zero_or_pos t with rfl | htpos
    · exact Nat.not_le.2 (digitCount_pos _) hle
    have hsmall := (digitCount_le_iff htpos _).1 hle
    have hlarge : 10 ^ (t + j) ≤ n := by
      refine Nat.not_lt.1 fun hlt => ?_
      have := (digitCount_le_iff (by omega) n).2 hlt
      omega
    have hquotient : 10 ^ t ≤ n / 10 ^ j := by
      rw [Nat.le_div_iff_mul_le (Nat.pow_pos (by decide)), ← Nat.pow_add]
      exact hlarge
    have := le_nearestUp n (10 ^ j)
    omega

/-- **Rounding is refused just if the result has too many digits.** The check of the first digit that comes
before it refuses nothing else: with its first digit so far up, the result would have too many. -/
theorem roundTo_eq_ite (places : Int) (d : Decimal) : d.roundTo places =
    if precision < digitCount (inPlaces places d.digits d.exponent) then none
    else some ⟨d.negative, inPlaces places d.digits d.exponent, -places⟩ := by
  obtain ⟨negative, n, e⟩ := d
  have hzero : digitCount 0 = 1 := by decide +kernel
  cases hround : roundTo places ⟨negative, n, e⟩ with
  | some q =>
    obtain ⟨rfl, hcount⟩ := eq_of_roundTo hround
    rw [if_neg (Nat.not_lt.2 hcount)]
  | none =>
    obtain ⟨hn, htop, hmany⟩ := (roundTo_eq_none_iff ..).1 hround
    rw [if_pos]
    rcases hmany with hmany | hmany
    · obtain ⟨t, ht⟩ : ∃ t : Nat, top ⟨false, n, e⟩ + places = t :=
        ⟨(top ⟨false, n, e⟩ + places).toNat, by omega⟩
      have := lt_digitCount_inPlaces hn ht
      simp only
      omega
    · exact hmany

end Decimal

namespace Binary64

/-- **Rounding is exact.** The decimal of a finite number goes to the one nearest multiple of `10 ^ -places`, halves
away from zero and the sign kept. That is refused just if it has too many digits when it is written with so many places,
and read as the nearest number otherwise. Of any other decimal, what it is rounded to is the opposite if the decimal is,
and not less if the decimal is not less; and a decimal that is a multiple already is not changed. -/
theorem roundTo_exact (places : ℕ) (s : Bool) (m : Magnitude) : ∃ q : Decimal,
    (shortest s m).IsRounded places q ∧
    (∀ r, IsNearest places (shortest s m).toRat r → r = q.toRat) ∧
    (finite s m).roundTo places =
      (if Decimal.precision < digitCount q.digits then none else some q.toBinary64) ∧
    (finite (!s) m).roundTo places = ((finite s m).roundTo places).map neg ∧
    (∀ e r : Decimal, e.IsRounded places r →
      (e.toRat = -(shortest s m).toRat → r.toRat = -q.toRat) ∧
      ((shortest s m).toRat ≤ e.toRat → q.toRat ≤ r.toRat)) ∧
    (IsMultiple places (shortest s m).toRat → q.toRat = (shortest s m).toRat) := by
  have hrounded := (shortest s m).isRounded_inPlaces places
  refine ⟨_, hrounded, fun r hr => hr.unique hrounded.nearest, ?_, roundTo_neg places (finite s m), ?_, ?_⟩
  · rw [roundTo, Decimal.roundTo_eq_ite, apply_ite (Option.map _), Option.map_none, Option.map_some]
  · intro e r hr
    refine ⟨fun hopposite => ?_, fun hle => hrounded.nearest.mono hr.nearest hle⟩
    have hneg := hr.nearest
    rw [hopposite] at hneg
    exact hneg.unique hrounded.nearest.neg
  · exact hrounded.nearest.eq_self

example : Decimal.roundTo 2 ⟨true, 9996, -3⟩ = some ⟨true, 1000, -2⟩ ∧
    Decimal.roundTo 0 ⟨false, 5, -1⟩ = some ⟨false, 1, 0⟩ := by
  decide +kernel

end Binary64
end Tariff
