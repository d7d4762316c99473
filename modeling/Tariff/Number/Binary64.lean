/-
# Binary64: the numbers that are priced with

A finite number is a sign and a whole number of *units*, the unit being `2 ^ -1074`, the least
positive number of the format. Of all magnitudes below `2 ^ 2098` units (that is `2 ^ 1024`) those
with at most 53 significant bits belong to the format:

| magnitude in units | spacing of its neighbours |
| --- | ---: |
| below `2 ^ 53` | 1 |
| from `2 ^ k` to `2 ^ (k + 1)`, `53 ≤ k` | `2 ^ (k - 52)` |

So arithmetic is exact arithmetic of whole numbers followed by one rounding, `Binary64.ofRatio`: the
nearest magnitude of the format, of two equally near the one with an even last place, and infinity
where that magnitude would reach `2 ^ 2098` units. Zero has two signs, and there is one `nan`.
-/

import Tariff.Number.Rounding

namespace Tariff

-- Powers are those of `Nat`, whatever instances a user imports; a literal exponent says its type for
-- the same reason.
attribute [local instance (high)] instPowNat

/-- The first whole number of units beyond the format. -/
@[irreducible] def Magnitude.limit : Nat := 2 ^ (2098 : Nat)

/-- A whole number of units that the format holds exactly. -/
structure Magnitude where
  units : Nat
  units_lt : units < Magnitude.limit
  spacing_dvd : 2 ^ (units.log2 - 52) ∣ units
  deriving DecidableEq

/-- A number of IEEE 754 binary64. -/
inductive Binary64 where
  | finite (negative : Bool) (magnitude : Magnitude)
  | infinite (negative : Bool)
  | nan
  deriving DecidableEq

namespace Magnitude

/-- A magnitude is its number of units; that the units are representable is no further data. -/
theorem ext_units {a b : Magnitude} (h : a.units = b.units) : a = b := by
  cases a; cases b; cases h; rfl

theorem limit_pos : 0 < limit := by
  unfold limit
  simp only [Nat.two_pow_pos]

def zero : Magnitude := ⟨0, limit_pos, Nat.dvd_zero _⟩

instance : Inhabited Magnitude := ⟨zero⟩

end Magnitude

namespace Binary64

instance : Inhabited Binary64 := ⟨finite false .zero⟩

/-- The number of units in one. -/
@[irreducible] def unitsPerOne : Nat := 2 ^ (1074 : Nat)

theorem unitsPerOne_pos : 0 < unitsPerOne := by
  unfold unitsPerOne
  simp only [Nat.two_pow_pos]

/-- The multiple of the spacing at `num / den` that is nearest to it, ties to the even multiple. -/
def nearestUnits (num den : Nat) : Nat :=
  let spacing := 2 ^ ((num / den).log2 - 52)
  nearestEven num (den * spacing) * spacing

/-- A multiple of `2 ^ e` by at most `2 ^ 53` has at most 53 significant bits. -/
theorem spacing_dvd_mul {k : Nat} (e : Nat) (hk : k ≤ 2 ^ (53 : Nat)) :
    2 ^ ((k * 2 ^ e).log2 - 52) ∣ k * 2 ^ e := by
  rcases Nat.eq_zero_or_pos k with rfl | hpos
  · simp
  by_cases hlt : k < 2 ^ 53
  · have hne : k * 2 ^ e ≠ 0 := Nat.ne_of_gt (Nat.mul_pos hpos (Nat.two_pow_pos e))
    have hlog : (k * 2 ^ e).log2 < 53 + e := by
      rw [Nat.log2_lt hne, Nat.pow_add]
      exact Nat.mul_lt_mul_of_pos_right hlt (Nat.two_pow_pos e)
    exact Nat.dvd_trans (Nat.pow_dvd_pow 2 (by omega)) (Nat.dvd_mul_left _ _)
  · have : k = 2 ^ 53 := by omega
    subst this
    rw [← Nat.pow_add]
    refine Nat.pow_dvd_pow 2 ?_
    rw [Nat.log2_two_pow]
    omega

/-- Rounding the quotient to 53 binary digits gives at most `2 ^ 53`: either 53 digits again, or the next power
of two, which has fewer significant ones. -/
theorem nearestEven_le_two_pow (num den : Nat) :
    nearestEven num (den * 2 ^ ((num / den).log2 - 52)) ≤ 2 ^ (53 : Nat) := by
  refine Nat.le_trans (nearestEven_le _ _) ?_
  rw [← Nat.div_div_eq_div_mul]
  have h : num / den < 2 ^ ((num / den).log2 + 1) := Nat.lt_log2_self
  have : num / den / 2 ^ ((num / den).log2 - 52) < 2 ^ 53 := by
    rw [Nat.div_lt_iff_lt_mul (Nat.two_pow_pos _), ← Nat.pow_add]
    exact Nat.lt_of_lt_of_le h (Nat.pow_le_pow_right (by decide) (by omega))
  omega

/-- What a quotient is rounded to has at most 53 significant binary digits, so it is representable. If rounding
went up to a power of two, the spacing there divides it still. -/
theorem spacing_dvd_nearestUnits (num den : Nat) :
    2 ^ ((nearestUnits num den).log2 - 52) ∣ nearestUnits num den :=
  spacing_dvd_mul _ (nearestEven_le_two_pow num den)

/-- The number of the format nearest to `num / den` units, with the given sign. -/
def ofRatio (negative : Bool) (num den : Nat) : Binary64 :=
  if h : nearestUnits num den < Magnitude.limit then
    .finite negative ⟨nearestUnits num den, h, spacing_dvd_nearestUnits num den⟩
  else .infinite negative

/-- **A magnitude of the format is its own nearest.** -/
theorem nearestUnits_units (m : Magnitude) : nearestUnits m.units 1 = m.units := by
  obtain ⟨k, hk⟩ := m.spacing_dvd
  unfold nearestUnits
  simp only [Nat.div_one, Nat.one_mul]
  generalize 2 ^ (m.units.log2 - 52) = s at hk
  rcases Nat.eq_zero_or_pos s with rfl | hs
  · simp at hk
    simp [hk]
  · rw [hk, nearestEven_mul_left hs, Nat.mul_comm]

/-- A magnitude as a quotient of units by one is rounded to itself: what is representable does not move. -/
theorem ofRatio_units (negative : Bool) (m : Magnitude) :
    ofRatio negative m.units 1 = .finite negative m := by
  unfold ofRatio
  simp only [nearestUnits_units, m.units_lt, ↓reduceDIte]

def zero : Binary64 := .finite false .zero

/-- The nearest number to a whole number; zero is positive. -/
def ofInt (z : Int) : Binary64 :=
  ofRatio (z < 0) (z.natAbs * unitsPerOne) 1

def ofNat (n : Nat) : Binary64 := ofInt n

def one : Binary64 := ofNat 1

/-- Neither infinite nor `nan`. -/
def isFinite : Binary64 → Bool
  | .finite _ _ => true
  | _ => false

def isNan : Binary64 → Bool
  | .nan => true
  | _ => false

/-! ### Order

`rank` is the place of a number on the line, in units, infinities at the first magnitude beyond the
format. `nan` has no place, so no comparison with it holds; the two zeros share one. -/

def rank : Binary64 → Option Int
  | .finite false m => some m.units
  | .finite true m => some (-m.units)
  | .infinite false => some Magnitude.limit
  | .infinite true => some (-Magnitude.limit)
  | .nan => none

def lt (x y : Binary64) : Bool :=
  match x.rank, y.rank with
  | some a, some b => a < b
  | _, _ => false

def le (x y : Binary64) : Bool :=
  match x.rank, y.rank with
  | some a, some b => a ≤ b
  | _, _ => false

/-- Numerical equality: the zeros are equal and `nan` is equal to nothing. -/
def eq (x y : Binary64) : Bool :=
  match x.rank, y.rank with
  | some a, some b => a = b
  | _, _ => false

/-- Neither a zero nor `nan`. -/
def isTrue (x : Binary64) : Bool := !(x.eq zero || x.isNan)

def isZero (x : Binary64) : Bool := x.eq zero

def isPositive (x : Binary64) : Bool := zero.lt x

/-- Everything but `nan` has its place in the order. -/
theorem rank_isSome {x : Binary64} (h : x.isNan = false) : x.rank.isSome := by
  rcases x with ⟨_ | _, m⟩ | ⟨_ | _⟩ | _ <;> simp_all [rank, isNan]

/-- Of two numbers that are not `nan`, exactly one of `<` and `≥` holds. -/
theorem lt_eq_not_le {x y : Binary64} (hx : x.isNan = false) (hy : y.isNan = false) :
    x.lt y = !y.le x := by
  obtain ⟨a, ha⟩ := Option.isSome_iff_exists.1 (rank_isSome hx)
  obtain ⟨b, hb⟩ := Option.isSome_iff_exists.1 (rank_isSome hy)
  simp only [lt, le, ha, hb]
  by_cases h : a < b
  · simp [h]
  · simp [h, Int.not_lt.1 h]

end Binary64

end Tariff
