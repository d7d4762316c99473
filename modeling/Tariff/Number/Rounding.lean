/-
# Rounding a quotient to a whole number

Every rounding in the library is one of two: `nearestEven` breaks a tie towards the even neighbour
(binary arithmetic, figures in reports), `nearestUp` away from zero (money). Both take the exact
quotient `num / den` of two natural numbers; a sign is kept outside and never touches a tie.
-/

namespace Tariff

/-- The whole number nearest to `num / den`, the even one of two equally near. -/
def nearestEven (num den : Nat) : Nat :=
  let q := num / den
  let r := num % den
  if 2 * r < den then q else if den < 2 * r then q + 1 else q + q % 2

/-- The whole number nearest to `num / den`, the larger one of two equally near. -/
def nearestUp (num den : Nat) : Nat :=
  (2 * num + den) / (2 * den)

/-- Rounding never leaves the two neighbours of the quotient. -/
theorem div_le_nearestEven (num den : Nat) : num / den ≤ nearestEven num den := by
  unfold nearestEven
  dsimp only
  split
  · exact Nat.le_refl _
  · split <;> omega

/-- Rounding to the nearest goes up by one at most. -/
theorem nearestEven_le (num den : Nat) : nearestEven num den ≤ num / den + 1 := by
  unfold nearestEven
  dsimp only
  split
  · omega
  · split
    · exact Nat.le_refl _
    · have := Nat.mod_lt (num / den) (show 2 > 0 by decide)
      omega

/-- A multiple of the divisor is not moved. -/
theorem nearestEven_mul_left {den : Nat} (h : 0 < den) (k : Nat) :
    nearestEven (den * k) den = k := by
  simp [nearestEven, Nat.mul_div_cancel_left k h, h]

/-- A multiple of the divisor is not moved, here where ties go up. -/
theorem nearestUp_mul_left {den : Nat} (h : 0 < den) (k : Nat) :
    nearestUp (den * k) den = k := by
  unfold nearestUp
  rw [show 2 * (den * k) + den = den + 2 * den * k by rw [Nat.mul_assoc]; omega,
    Nat.add_mul_div_left _ _ (by omega), Nat.div_eq_of_lt (by omega)]
  omega

example : nearestEven 5 2 = 2 ∧ nearestEven 7 2 = 4 ∧ nearestUp 5 2 = 3 ∧ nearestUp 9 4 = 2 := by
  decide

end Tariff
