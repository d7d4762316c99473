/-
# Zeros in sums

A sum starts from positive zero, and from there no step leads to negative zero: only two negative zeros add up to
one. To anything else a zero of either sign adds nothing, so zeros may be left out of a sum
(`Binary64.sum_filter_isZero`).
-/

import Tariff.Proofs.Number.Order

namespace Tariff

attribute [local instance (high)] instPowNat

namespace Binary64

/-- Rounding to 53 binary digits does not lose a number above zero. -/
theorem nearestUnits_pos {n : Nat} (h : 0 < n) : 0 < nearestUnits n 1 := by
  have hlog : 1 * 2 ^ n.log2 ≤ n := by
    rw [Nat.one_mul]
    exact Nat.log2_self_le (Nat.ne_of_gt h)
  refine Nat.lt_of_lt_of_le (Nat.two_pow_pos n.log2) (two_pow_le_nearestUnits Nat.one_pos hlog ?_)
  rw [Nat.div_one]
  exact Nat.sub_le _ _

/-- A number of units above zero is not rounded to a zero: whole numbers of units cannot underflow. -/
theorem ofRatio_ne_zero {n : Nat} (h : 0 < n) (s t : Bool) : ofRatio s n 1 ≠ finite t .zero := by
  have hpos := nearestUnits_pos h
  unfold ofRatio
  split
  · intro heq
    have hzero : nearestUnits n 1 = 0 := congrArg Magnitude.units (finite.inj heq).2
    omega
  · intro heq
    cases heq

/-- Only two negative zeros add up to one. -/
theorem add_ne_negative_zero {x : Binary64} (hx : x ≠ finite true .zero) (y : Binary64) :
    x.add y ≠ finite true .zero := by
  rcases x with ⟨s, a⟩ | s | _ <;> rcases y with ⟨t, b⟩ | t | _
  · rw [add]
    split
    · intro heq
      obtain rfl : true = s := negative_of_ofRatio heq
      refine ofRatio_ne_zero (Nat.pos_of_ne_zero fun hzero => hx ?_) _ _ heq
      rw [Magnitude.ext_units (show a.units = Magnitude.zero.units from Nat.eq_zero_of_add_eq_zero_right hzero)]
    split
    · exact nofun
    split
    · exact ofRatio_ne_zero (by omega) _ _
    · exact ofRatio_ne_zero (by omega) _ _
  · exact nofun
  · exact nofun
  · exact nofun
  · rw [add]
    split
    · exact nofun
    · exact nofun
  · exact nofun
  · exact nofun
  · exact nofun
  · exact nofun

/-- A finite number is a zero just if it has no units, whatever its sign. -/
theorem isZero_finite_iff {s : Bool} {m : Magnitude} : (finite s m).isZero ↔ m.units = 0 := by
  cases s <;> simp [isZero, eq, rank, zero, Magnitude.zero]

theorem isZero_infinite (s : Bool) : (infinite s).isZero = false := by
  have hlimit := Magnitude.limit_pos
  cases s <;> simp [isZero, eq, rank, zero, Magnitude.zero] <;> omega

/-- There are two zeros, told apart by their signs. -/
theorem eq_zero_of_isZero {x : Binary64} (h : x.isZero) : ∃ s, x = finite s .zero := by
  rcases x with ⟨s, m⟩ | s | _
  · exact ⟨s, congrArg (finite s) (Magnitude.ext_units (isZero_finite_iff.1 h))⟩
  · simp [isZero_infinite] at h
  · cases h

/-- A zero adds nothing to anything but a negative zero. -/
theorem add_of_isZero {x y : Binary64} (hx : x ≠ finite true .zero) (hy : y.isZero) : x.add y = x := by
  obtain ⟨t, rfl⟩ := eq_zero_of_isZero hy
  rcases x with ⟨s, a⟩ | s | _
  · rw [add, show Magnitude.zero.units = 0 from rfl, Nat.add_zero, Nat.sub_zero]
    split
    · exact ofRatio_units s a
    rename_i hsign
    split
    · rename_i hzero
      obtain rfl : a = .zero := Magnitude.ext_units hzero
      cases s with
      | false => rfl
      | true => exact absurd rfl hx
    · rename_i hpos
      rw [if_pos (Nat.pos_of_ne_zero hpos)]
      exact ofRatio_units s a
  · rfl
  · rfl

/-- **Zeros add nothing to a sum.** They are left out from the front, where the sum so far is never a negative
zero, so that no sign can change. -/
theorem sum_filter_isZero (xs : List Binary64) : sum (xs.filter fun x => !x.isZero) = sum xs := by
  have hfrom (acc : Binary64) (hacc : acc ≠ finite true .zero) :
      (xs.filter fun x => !x.isZero).foldl add acc = xs.foldl add acc := by
    induction xs generalizing acc with
    | nil => rfl
    | cons x xs ih =>
      cases hzero : x.isZero with
      | true =>
        rw [List.filter_cons_of_neg (by simp [hzero]), List.foldl_cons, add_of_isZero hacc hzero, ih acc hacc]
      | false =>
        rw [List.filter_cons_of_pos (by simp [hzero]), List.foldl_cons, List.foldl_cons]
        exact ih _ (add_ne_negative_zero hacc x)
  exact hfrom zero nofun

end Binary64
end Tariff
