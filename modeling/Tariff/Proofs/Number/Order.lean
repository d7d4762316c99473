/-
# Rounding keeps the order

Every rounding here is monotone: of two quotients with one denominator the larger one has the larger
nearest whole number (`nearestEven_mono`) and the larger nearest number of the format
(`Binary64.nearestUnits_mono`), so of two decimals on one grid the larger one has the larger nearest
binary64 (`Decimal.toBinary64_le`).

The spacing of the format grows at the powers of two. Between two numbers of different spacing there is
such a power, which is a multiple of both spacings, so neither is rounded past it.
-/

import Tariff.Number.Arithmetic
import Tariff.Proofs.Number.ReadBack

namespace Tariff

attribute [local instance (high)] instPowNat

/-- Rounding to the nearest keeps the order: a tie that goes down does not fall below a smaller number that goes
up. -/
theorem nearestEven_mono {a b : Nat} (h : a ≤ b) (den : Nat) : nearestEven a den ≤ nearestEven b den := by
  have hquotient : a / den ≤ b / den := Nat.div_le_div_right h
  rcases Nat.lt_or_eq_of_le hquotient with hlt | heq
  · calc nearestEven a den ≤ a / den + 1 := nearestEven_le a den
      _ ≤ b / den := hlt
      _ ≤ nearestEven b den := div_le_nearestEven b den
  · have hremainder : a % den ≤ b % den := by
      have ha := Nat.div_add_mod a den
      have hb := Nat.div_add_mod b den
      rw [heq] at ha
      omega
    simp only [nearestEven, heq]
    repeat' split
    all_goals omega

theorem log2_mono {a b : Nat} (h : a ≤ b) : a.log2 ≤ b.log2 := by
  by_cases ha : a = 0
  · simp [ha]
  · exact (Nat.le_log2 (by omega)).2 (Nat.le_trans (Nat.log2_self_le ha) h)

theorem digitCount_mono {a b : Nat} (h : a ≤ b) : digitCount a ≤ digitCount b := by
  rw [digitCount_le_iff (digitCount_pos b)]
  exact Nat.lt_of_le_of_lt h ((digitCount_le_iff (digitCount_pos b) b).1 (Nat.le_refl _))

namespace Binary64

/-! ### Numbers of the format -/

/-- The nearest number is not above a power of two that the quotient is not above. -/
theorem nearestUnits_le_two_pow {num den k : Nat} (hden : 0 < den) (h : num ≤ den * 2 ^ k)
    (hk : (num / den).log2 - 52 ≤ k) : nearestUnits num den ≤ 2 ^ k := by
  unfold nearestUnits
  generalize (num / den).log2 - 52 = e at hk ⊢
  have hsplit : 2 ^ k = 2 ^ e * 2 ^ (k - e) := by rw [← Nat.pow_add, Nat.add_sub_cancel' hk]
  calc nearestEven num (den * 2 ^ e) * 2 ^ e
      ≤ nearestEven (den * 2 ^ e * 2 ^ (k - e)) (den * 2 ^ e) * 2 ^ e := by
        refine Nat.mul_le_mul_right _ (nearestEven_mono ?_ _)
        rwa [Nat.mul_assoc, ← hsplit]
    _ = 2 ^ k := by
        rw [nearestEven_mul_left (Nat.mul_pos hden (Nat.two_pow_pos e)), hsplit, Nat.mul_comm]

/-- The nearest number is not below a power of two that the quotient is not below. -/
theorem two_pow_le_nearestUnits {num den k : Nat} (hden : 0 < den) (h : den * 2 ^ k ≤ num)
    (hk : (num / den).log2 - 52 ≤ k) : 2 ^ k ≤ nearestUnits num den := by
  unfold nearestUnits
  generalize (num / den).log2 - 52 = e at hk ⊢
  have hsplit : 2 ^ k = 2 ^ e * 2 ^ (k - e) := by rw [← Nat.pow_add, Nat.add_sub_cancel' hk]
  calc 2 ^ k = nearestEven (den * 2 ^ e * 2 ^ (k - e)) (den * 2 ^ e) * 2 ^ e := by
        rw [nearestEven_mul_left (Nat.mul_pos hden (Nat.two_pow_pos e)), hsplit, Nat.mul_comm]
    _ ≤ nearestEven num (den * 2 ^ e) * 2 ^ e := by
        refine Nat.mul_le_mul_right _ (nearestEven_mono ?_ _)
        rwa [Nat.mul_assoc, ← hsplit]

/-- **A larger quotient has the larger nearest number.** Quotients of one length are rounded to multiples of one
spacing; of two lengths, the power of two between them separates the results. -/
theorem nearestUnits_mono {a b : Nat} (h : a ≤ b) {den : Nat} (hden : 0 < den) :
    nearestUnits a den ≤ nearestUnits b den := by
  have hlog : (a / den).log2 ≤ (b / den).log2 := log2_mono (Nat.div_le_div_right h)
  by_cases hspacing : (a / den).log2 - 52 = (b / den).log2 - 52
  · simp only [nearestUnits, hspacing]
    exact Nat.mul_le_mul_right _ (nearestEven_mono h _)
  · have hb : b / den ≠ 0 := by
      intro hzero
      rw [hzero, Nat.log2_zero] at hlog hspacing
      omega
    have hbelow : a ≤ den * 2 ^ (b / den).log2 := by
      have hlt : a / den < 2 ^ (b / den).log2 := by
        by_cases ha : a / den = 0
        · rw [ha]
          exact Nat.two_pow_pos _
        · exact (Nat.log2_lt ha).1 (by omega)
      rw [Nat.mul_comm]
      exact Nat.le_of_lt ((Nat.div_lt_iff_lt_mul hden).1 hlt)
    have habove : den * 2 ^ (b / den).log2 ≤ b := by
      rw [Nat.mul_comm]
      exact (Nat.le_div_iff_mul_le hden).1 (Nat.log2_self_le hb)
    exact Nat.le_trans (nearestUnits_le_two_pow hden hbelow (by omega))
      (two_pow_le_nearestUnits hden habove (Nat.sub_le _ _))

/-- The place of a rounded quotient in the order: its units, or the limit where it is infinite. -/
theorem rank_ofRatio (num den : Nat) :
    (ofRatio false num den).rank = some ((min (nearestUnits num den) Magnitude.limit : Nat) : Int) := by
  unfold ofRatio
  split
  · rename_i hlt
    simp [rank, Nat.min_eq_left (Nat.le_of_lt hlt)]
  · rename_i hge
    simp [rank, Nat.min_eq_right (Nat.not_lt.1 hge)]

/-- Numbers with places in the order are compared by their places. -/
theorem le_iff {x y : Binary64} {a b : Int} (hx : x.rank = some a) (hy : y.rank = some b) :
    x.le y ↔ a ≤ b := by
  simp [le, hx, hy]

/-- To be at most another, both have to be in the order; `nan` compares with nothing. -/
theorem le_iff_exists {x y : Binary64} : x.le y ↔ ∃ a b, x.rank = some a ∧ y.rank = some b ∧ a ≤ b := by
  unfold le
  cases x.rank <;> cases y.rank <;> simp

/-- To be below another, both have to be in the order. -/
theorem lt_iff_exists {x y : Binary64} : x.lt y ↔ ∃ a b, x.rank = some a ∧ y.rank = some b ∧ a < b := by
  unfold lt
  cases x.rank <;> cases y.rank <;> simp

theorem le_of_lt {x y : Binary64} (h : x.lt y) : x.le y := by
  obtain ⟨a, b, ha, hb, hab⟩ := lt_iff_exists.1 h
  exact (le_iff ha hb).2 (Int.le_of_lt hab)

/-- The order is transitive, and `nan` stands in no way since it is in no pair. -/
theorem le_trans {x y z : Binary64} (h : x.le y) (h' : y.le z) : x.le z := by
  obtain ⟨a, b, ha, hb, hab⟩ := le_iff_exists.1 h
  obtain ⟨b', c, hb', hc, hbc⟩ := le_iff_exists.1 h'
  obtain rfl : b = b' := Option.some.inj (hb.symm.trans hb')
  exact (le_iff ha hc).2 (Int.le_trans hab hbc)

theorem lt_of_lt_of_le {x y z : Binary64} (h : x.lt y) (h' : y.le z) : x.lt z := by
  obtain ⟨a, b, ha, hb, hab⟩ := lt_iff_exists.1 h
  obtain ⟨b', c, hb', hc, hbc⟩ := le_iff_exists.1 h'
  obtain rfl : b = b' := Option.some.inj (hb.symm.trans hb')
  exact lt_iff_exists.2 ⟨a, c, ha, hc, Int.lt_of_lt_of_le hab hbc⟩

theorem lt_of_le_of_lt {x y z : Binary64} (h : x.le y) (h' : y.lt z) : x.lt z := by
  obtain ⟨a, b, ha, hb, hab⟩ := le_iff_exists.1 h
  obtain ⟨b', c, hb', hc, hbc⟩ := lt_iff_exists.1 h'
  obtain rfl : b = b' := Option.some.inj (hb.symm.trans hb')
  exact lt_iff_exists.2 ⟨a, c, ha, hc, Int.lt_of_le_of_lt hab hbc⟩

/-- Nothing is below itself, `nan` included. -/
theorem lt_self (x : Binary64) : x.lt x = false := by
  unfold lt
  cases x.rank <;> simp

/-- What is not above a number is not above a larger one. -/
theorem lt_eq_false_of_le_left {x y z : Binary64} (hxy : x.le y) (h : x.lt z = false) : y.lt z = false := by
  rw [← Bool.not_eq_true] at h ⊢
  exact fun hyz => h (lt_of_le_of_lt hxy hyz)

/-- A strict comparison holds of numbers only, so neither side is `nan`. -/
theorem isNan_of_lt {x y : Binary64} (h : x.lt y) : x.isNan = false ∧ y.isNan = false := by
  obtain ⟨a, b, ha, hb, -⟩ := lt_iff_exists.1 h
  constructor
  · cases x <;> simp_all [rank, isNan]
  · cases y <;> simp_all [rank, isNan]

/-- Among numbers that are not `nan`, one of two is always at most the other. -/
theorem le_of_lt_eq_false {x y : Binary64} (hx : x.isNan = false) (hy : y.isNan = false)
    (h : x.lt y = false) : y.le x := by
  simpa [lt_eq_not_le hx hy] using h

/-- The place of a finite number is its units with its sign, so both zeros have the same place. -/
theorem rank_finite (s : Bool) (m : Magnitude) : (finite s m).rank = some (signedUnits s m) := by
  cases s <;> rfl

theorem le_refl {x : Binary64} (h : x.isNan = false) : x.le x := le_of_lt_eq_false h h (lt_self x)

/-- Without signs, magnitudes are compared by their units. -/
theorem finite_le_finite {a b : Magnitude} : (finite false a).le (finite false b) ↔ a.units ≤ b.units := by
  rw [le_iff rfl rfl, Int.ofNat_le]

theorem finite_lt_finite {a b : Magnitude} : (finite false a).lt (finite false b) ↔ a.units < b.units := by
  simp [lt, rank]

/-- **Rounding to binary64 keeps the order** of quotients with the same divisor. -/
theorem ofRatio_le {a b : Nat} (h : a ≤ b) {den : Nat} (hden : 0 < den) :
    (ofRatio false a den).le (ofRatio false b den) := by
  rw [le_iff (rank_ofRatio a den) (rank_ofRatio b den)]
  have := nearestUnits_mono h hden
  omega

/-- Everything in the order is at most the positive infinity. -/
theorem le_infinite {x : Binary64} {a : Int} (hx : x.rank = some a) : x.le (infinite false) := by
  rw [le_iff hx rfl]
  rcases x with ⟨_ | _, m⟩ | ⟨_ | _⟩ | _
  · obtain rfl := Option.some.inj hx
    exact Int.ofNat_le.2 (Nat.le_of_lt m.units_lt)
  · obtain rfl := Option.some.inj hx
    omega
  · obtain rfl := Option.some.inj hx
    exact Int.le_refl _
  · obtain rfl := Option.some.inj hx
    omega
  · simp [rank] at hx

/-- A quotient without a sign is not below zero. -/
theorem zero_le_ofRatio (num den : Nat) : (finite false .zero).le (ofRatio false num den) := by
  rw [le_iff rfl (rank_ofRatio num den)]
  exact Int.natCast_nonneg _

end Binary64

/-! ### Decimals -/

namespace Decimal

/-- **A larger decimal has the larger nearest number.** Brought to one exponent, decimals are compared as
quotients. -/
theorem toBinary64_le {a b : Nat} (h : a ≤ b) (exponent : Int) :
    (toBinary64 ⟨false, a, exponent⟩).le (toBinary64 ⟨false, b, exponent⟩) := by
  have hcount := digitCount_mono h
  have hpow : 0 < 10 ^ (-exponent).toNat := Nat.pow_pos (by decide)
  simp only [toBinary64, top]
  by_cases ha : a = 0 ∨ exponent + digitCount a - 1 < -324
  · rw [if_pos ha]
    split
    · exact (Binary64.le_iff rfl rfl).2 (Int.le_refl _)
    split
    · exact Binary64.le_infinite rfl
    split
    · exact Binary64.zero_le_ofRatio _ _
    · exact Binary64.zero_le_ofRatio _ _
  rw [if_neg ha, if_neg (show ¬ (b = 0 ∨ exponent + digitCount b - 1 < -324) by omega)]
  by_cases hb : 309 < exponent + digitCount b - 1
  · rw [if_pos hb]
    split
    · exact Binary64.le_infinite rfl
    split
    · exact Binary64.le_infinite (Binary64.rank_ofRatio _ _)
    · exact Binary64.le_infinite (Binary64.rank_ofRatio _ _)
  rw [if_neg hb, if_neg (show ¬ 309 < exponent + digitCount a - 1 by omega)]
  split
  · exact Binary64.ofRatio_le (Nat.mul_le_mul_right _ (Nat.mul_le_mul_right _ h)) (by decide)
  · exact Binary64.ofRatio_le (Nat.mul_le_mul_right _ h) hpow

end Decimal
end Tariff
