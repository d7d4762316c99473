/-
# Where arithmetic gives no number

A sum of finite numbers is a number, though perhaps an infinite one (`Binary64.isNan_sum`). A product is `nan` only by
a factor that is, or as a zero times an infinity (`Binary64.mul_eq_nan_iff`). What is left of one after taking off a
positive share is no `nan` itself, but it is infinite where the share is and zero where the share is all of it
(`Binary64.one_sub_cases`). So an amount is lost to a discount in two ways only:

| amount | share taken off | what is left of one | amount left |
| --- | --- | --- | --- |
| zero | infinite | `-inf` | `nan` |
| infinite | `1` | `0` | `nan` |
-/

import Tariff.Answers
import Tariff.Proofs.Number.Money
import Tariff.Proofs.Number.Sums

namespace Tariff

attribute [local instance (high)] instPowNat

namespace Binary64

/-! ### Products -/

/-- A quotient is rounded to a finite number or an infinity, never to `nan`. -/
theorem ofRatio_ne_nan (s : Bool) (num den : Nat) : ofRatio s num den ≠ nan := by
  unfold ofRatio
  split <;> simp

/-- **A product is no number** only if a factor is none, or if one is zero and the other infinite. Overflow
gives an infinity and no `nan`. -/
theorem mul_eq_nan_iff {x y : Binary64} : x * y = nan ↔ x = nan ∨ y = nan ∨
    (x.isZero ∧ ∃ s, y = infinite s) ∨ (∃ s, x = infinite s) ∧ y.isZero := by
  show x.mul y = nan ↔ _
  rcases x with ⟨s, a⟩ | s | _ <;> rcases y with ⟨t, b⟩ | t | _
  · simp [mul, ofRatio_ne_nan]
  · simp [mul, isZero_finite_iff]
  · simp [mul]
  · simp [mul, isZero_finite_iff]
  · simp [mul, isZero_infinite]
  · simp [mul]
  · simp [mul]
  · simp [mul]
  · simp [mul]

/-! ### Sums -/

/-- Adding a finite number to a number gives a number. -/
theorem isNan_add {x y : Binary64} (hx : x.isNan = false) (hy : y.isFinite) : (x.add y).isNan = false := by
  have hratio (s : Bool) (num den : Nat) : (ofRatio s num den).isNan = false := by
    unfold ofRatio
    split <;> rfl
  rcases x with ⟨s, a⟩ | s | _
  · rcases y with ⟨t, b⟩ | t | _
    · rw [add]
      split
      · exact hratio _ _ _
      split
      · rfl
      split
      · exact hratio _ _ _
      · exact hratio _ _ _
    · cases hy
    · cases hy
  · rcases y with ⟨t, b⟩ | t | _
    · rfl
    · cases hy
    · cases hy
  · cases hx

/-- **A sum of finite numbers is a number.** It may overflow on the way, but with numbers left to add that are
all finite it does not meet the other infinity. -/
theorem isNan_sum {xs : List Binary64} (h : ∀ x ∈ xs, x.isFinite) : (sum xs).isNan = false := by
  have hfrom (acc : Binary64) (hacc : acc.isNan = false) : (xs.foldl add acc).isNan = false := by
    induction xs generalizing acc with
    | nil => exact hacc
    | cons x xs ih =>
      obtain ⟨hx, hxs⟩ := List.forall_mem_cons.1 h
      exact ih hxs _ (isNan_add hacc hx)
  exact hfrom zero rfl

/-! ### What is left of one -/

/-- A positive whole number of units up to a magnitude is finite and not zero. -/
theorem exists_magnitude_of_le {n : Nat} {m : Magnitude} (hpos : 0 < n) (h : n ≤ m.units) (s : Bool) :
    ∃ r, ofRatio s n 1 = finite s r ∧ r.units ≠ 0 := by
  have hle : nearestUnits n 1 ≤ m.units := by
    rw [← nearestUnits_units m]
    exact nearestUnits_mono h Nat.one_pos
  have hlt : nearestUnits n 1 < Magnitude.limit := Nat.lt_of_le_of_lt hle m.units_lt
  exact ⟨_, dif_pos hlt, Nat.ne_of_gt (nearestUnits_pos hpos)⟩

/-- One is finite, as the value of a comparison has to be. -/
theorem isFinite_one : one.isFinite := by decide +kernel

theorem exists_magnitude_one : ∃ m, one = finite false m := by
  have hfinite := isFinite_one
  cases h : one with
  | finite s m =>
    obtain rfl : s = false := negative_of_ofRatio h
    exact ⟨m, rfl⟩
  | infinite s => simp [h, isFinite] at hfinite
  | nan => simp [h, isFinite] at hfinite

/-- What is left of one after taking off a positive share. -/
theorem one_sub_cases {d : Binary64} (hd : d.isPositive) :
    (d = infinite false ∧ one - d = infinite true) ∨ (d = one ∧ one - d = zero) ∨
      d.isFinite ∧ d ≠ one ∧ ∃ s m, one - d = finite s m ∧ m.units ≠ 0 := by
  obtain ⟨u, hu⟩ := exists_magnitude_one
  have hsub : one - d = (finite false u).add d.neg := by rw [← hu]; rfl
  have habs := abs_eq_self hd
  rcases d with ⟨s, m⟩ | s | _
  · obtain rfl : s = false := (finite.inj habs).1.symm
    rw [hsub, hu]
    simp only [neg, add, Bool.not_false, Bool.false_eq_true, ↓reduceIte]
    by_cases heq : u.units = m.units
    · rw [if_pos heq, Magnitude.ext_units heq]
      exact .inr (.inl ⟨rfl, rfl⟩)
    · refine .inr (.inr ⟨rfl, fun hsame => heq ?_, ?_⟩)
      · rw [(finite.inj hsame).2]
      · rw [if_neg heq]
        split
        · rename_i hlt
          obtain ⟨r, hr, hne⟩ := exists_magnitude_of_le (m := u) (Nat.sub_pos_of_lt hlt) (Nat.sub_le _ _) false
          exact ⟨false, r, hr, hne⟩
        · have hpos : 0 < m.units - u.units := by omega
          obtain ⟨r, hr, hne⟩ := exists_magnitude_of_le (m := m) hpos (Nat.sub_le _ _) true
          exact ⟨true, r, hr, hne⟩
  · obtain rfl : s = false := (infinite.inj habs).symm
    exact .inl ⟨rfl, hsub⟩
  · cases hd

/-- **A discount loses an amount** only if an infinite share is taken off zero, or all of an infinity. These are
the two products of zero and an infinity. -/
theorem mul_one_sub_eq_nan_iff {x d : Binary64} (hd : d.isPositive) : x * (one - d) = nan ↔
    x = nan ∨ (x.isZero ∧ d = infinite false) ∨ (∃ s, x = infinite s) ∧ d = one := by
  rw [mul_eq_nan_iff]
  obtain ⟨u, hu⟩ := exists_magnitude_one
  rcases one_sub_cases hd with ⟨rfl, hleft⟩ | ⟨rfl, hleft⟩ | ⟨hfinite, hone, s, m, hleft, hm⟩
  · rw [hleft]
    simp [hu, isZero_infinite]
  · rw [hleft, zero, isZero_finite_iff]
    simp [hu, Magnitude.zero]
  · have hd' : d ≠ infinite false := by
      rintro rfl
      cases hfinite
    rw [hleft, isZero_finite_iff]
    simp [hm, hone, hd']

end Binary64

namespace Json

/-- Every value gives a finite number. -/
theorem isFinite_number (v : Json) : v.number.isFinite := by
  fun_induction number v with
  | case1 => rfl
  | case2 => exact Binary64.isFinite_one
  | case3 => rfl
  | case4 n => exact isFinite_finiteOrZero _
  | case5 x => exact isFinite_finiteOrZero _
  | case6 s =>
    unfold textNumber
    dsimp only
    split
    · rfl
    · exact isFinite_finiteOrZero _
  | case7 v ih => exact ih
  | case8 => rfl
  | case9 => rfl

end Json
end Tariff
