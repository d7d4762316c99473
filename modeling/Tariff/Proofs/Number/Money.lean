/-
# Rounding money

Rounding to cents keeps the sign and the order (`Binary64.roundMoney_mono`) and leaves alone what it has rounded
(`Binary64.roundMoney_of_roundMoney`), since what some number of cents reads as has a shortest decimal of at most two
places.

An amount may be rounded before it is raised to a minimum, or after: raising the rounded amount and rounding
again gives what raising and rounding gives (`cents_raisedTo`). That takes the order and the repetition
together, for the minimum may lie between the amount and the rounded amount.

| minimum | amount | rounded | rounded, raised, rounded | raised, rounded |
| --- | --- | --- | --- | --- |
| `0.004` | `0.0046` | `0.0` | `0.0` | `0.0` |
| `0.006` | `0.0052` | `0.01` | `0.01` | `0.01` |
-/

import Tariff.Pricing.Total
import Tariff.Proofs.Number.Cents
import Tariff.Proofs.Number.Digits

namespace Tariff

attribute [local instance (high)] instPowNat

namespace Binary64

/-! ### Amounts in cents -/

/-- What an amount is rounded to is the binary64 next to a number of cents, and not beyond those that can be
rounded. -/
theorem exists_magnitude_of_roundMoney {m : Magnitude} {n : Nat} {exponent : Int} {x : Binary64}
    (hd : shortestMagnitude m = ⟨false, n, exponent⟩) (h : (finite false m).roundMoney = some x) :
    ∃ r, x = finite false r ∧
      Decimal.toBinary64 ⟨false, Decimal.inPlaces 2 n exponent, -2⟩ = finite false r := by
  obtain ⟨d, hround, rfl⟩ := Option.map_eq_some_iff.1 h
  rw [shortest, hd] at hround
  obtain ⟨rfl, hcount⟩ := Decimal.eq_of_roundTo hround
  have htop : Decimal.top ⟨false, Decimal.inPlaces 2 n exponent, -2⟩ < 26 := by
    simp only [Decimal.top, Decimal.precision] at hcount ⊢
    omega
  have hle := Decimal.toBinary64_le_ten_pow htop
  rw [toBinary64_ten_pow_26] at hle
  obtain ⟨r, hr, -⟩ := exists_toBinary64_eq_of_le hle
  exact ⟨r, hr, hr⟩

/-- Rounding gives a finite number of the same sign, and its magnitude does not depend on the sign. -/
theorem exists_finite_of_roundMoney {s : Bool} {m : Magnitude} {x : Binary64}
    (h : (finite s m).roundMoney = some x) :
    ∃ r, x = finite s r ∧ (finite false m).roundMoney = some (finite false r) := by
  have hpositive : ∀ {y}, (finite false m).roundMoney = some y →
      ∃ r, y = finite false r ∧ (finite false m).roundMoney = some (finite false r) := by
    intro y hy
    obtain ⟨n, exponent, hd⟩ := exists_shortestMagnitude m
    obtain ⟨r, rfl, -⟩ := exists_magnitude_of_roundMoney hd hy
    exact ⟨r, rfl, hy⟩
  cases s with
  | false => exact hpositive h
  | true =>
    obtain ⟨y, hy, rfl⟩ := Option.map_eq_some_iff.1 ((roundTo_neg 2 (finite false m)).symm.trans h)
    obtain ⟨r, rfl, hr⟩ := hpositive hy
    exact ⟨r, rfl, hr⟩

/-- Rounding does not look at the sign, so it is enough to follow positive amounts. -/
theorem roundMoney_finite_of_false {m r : Magnitude} (s : Bool)
    (h : (finite false m).roundMoney = some (finite false r)) :
    (finite s m).roundMoney = some (finite s r) := by
  cases s with
  | false => exact h
  | true => exact (roundTo_neg 2 (finite false m)).trans (congrArg (Option.map neg) h)

/-- Of two amounts the larger is rounded to the larger one, or to the same. -/
theorem units_le_of_roundMoney {a b a' b' : Magnitude} (h : a.units ≤ b.units)
    (ha : (finite false a).roundMoney = some (finite false a'))
    (hb : (finite false b).roundMoney = some (finite false b')) : a'.units ≤ b'.units := by
  rcases Nat.eq_or_lt_of_le h with heq | hlt
  · obtain rfl : a = b := Magnitude.ext_units heq
    obtain rfl : a' = b' := (finite.inj (Option.some.inj (ha.symm.trans hb))).2
    exact Nat.le_refl _
  · obtain ⟨n, e, hn⟩ := exists_shortestMagnitude a
    obtain ⟨k, f, hk⟩ := exists_shortestMagnitude b
    obtain ⟨x, hx, hx'⟩ := exists_magnitude_of_roundMoney hn ha
    obtain ⟨y, hy, hy'⟩ := exists_magnitude_of_roundMoney hk hb
    obtain ⟨-, rfl⟩ := finite.inj hx
    obtain ⟨-, rfl⟩ := finite.inj hy
    have hle := Decimal.inPlaces_le_of_toBinary64 2 (hn ▸ toBinary64_shortestMagnitude a)
      (hk ▸ toBinary64_shortestMagnitude b) hlt
    have := Decimal.toBinary64_le hle (-2)
    rwa [hx', hy', finite_le_finite] at this

/-- Zero is rounded to zero. -/
theorem units_eq_zero_of_roundMoney {m r : Magnitude} (hm : m.units = 0)
    (h : (finite false m).roundMoney = some (finite false r)) : r.units = 0 := by
  obtain rfl : m = .zero := Magnitude.ext_units hm
  have hzero : (finite false .zero).roundMoney = some (finite false .zero) := by decide +kernel
  exact congrArg Magnitude.units (finite.inj (Option.some.inj (h.symm.trans hzero))).2

/-- **Rounding keeps the order.** Signs are dealt with first; among positive amounts the shortest decimals are
in the order of the numbers, and so are their cents. -/
theorem roundMoney_mono {x y x' y' : Binary64} (h : x.le y) (hx : x.roundMoney = some x')
    (hy : y.roundMoney = some y') : x'.le y' := by
  rcases x with ⟨s, a⟩ | s | _
  · rcases y with ⟨t, b⟩ | t | _
    · obtain ⟨a', rfl, ha⟩ := exists_finite_of_roundMoney hx
      obtain ⟨b', rfl, hb⟩ := exists_finite_of_roundMoney hy
      rw [le_iff (rank_finite s a) (rank_finite t b)] at h
      rw [le_iff (rank_finite s a') (rank_finite t b')]
      cases s <;> cases t <;> simp only [signedUnits, Bool.false_eq_true, if_true, if_false] at h ⊢
      · have := units_le_of_roundMoney (by omega) ha hb
        omega
      · have := units_eq_zero_of_roundMoney (by omega) ha
        have := units_eq_zero_of_roundMoney (by omega) hb
        omega
      · omega
      · have := units_le_of_roundMoney (by omega) hb ha
        omega
    · cases hy
    · cases s <;> cases h
  · cases hx
  · cases h

/-! ### What is rounded stays -/

/-- An amount of at most two places is its own rounding. -/
theorem eq_of_roundMoney_of_exponent {m : Magnitude} {x : Binary64} (he : -2 ≤ (shortestMagnitude m).exponent)
    (h : (finite false m).roundMoney = some x) : x = finite false m := by
  obtain ⟨n, exponent, hd⟩ := exists_shortestMagnitude m
  simp only [hd] at he
  obtain ⟨r, rfl, hr⟩ := exists_magnitude_of_roundMoney hd h
  rw [← hr, Decimal.toBinary64_inPlaces he, ← hd, toBinary64_shortestMagnitude]

/-- An amount whose shortest decimal has more than two places is below `10 ^ 14`, since 17 digits tell any two
binary64 apart. -/
theorem units_lt_of_exponent {m : Magnitude} (h : (shortestMagnitude m).exponent < -2) :
    m.units < 10 ^ (14 : Nat) * unitsPerOne := by
  have hpos := unitsPerOne_pos
  by_cases hone : unitsPerOne ≤ m.units
  · obtain ⟨t, ht, -, -, hbeyond⟩ := exists_topExponent_eq hone
    have hgrid := exponent_shortestMagnitude_of_onGrid? (by omega) (isSome_onGrid?_seventeen hone)
      (by omega) (Int.le_refl _)
    calc m.units < 10 ^ (t + 1) * unitsPerOne := hbeyond
      _ ≤ 10 ^ 14 * unitsPerOne :=
        Nat.mul_le_mul_right _ (Nat.pow_le_pow_right (by decide) (by omega))
  · omega

end Binary64

/-- The number `10 ^ 14`. From there on every amount has at most two places. -/
def Magnitude.wholeCents : Magnitude where
  units := 10 ^ (14 : Nat) * 2 ^ (1074 : Nat)
  units_lt := by
    unfold limit
    decide +kernel
  spacing_dvd := by decide +kernel

namespace Binary64

/-- The bound below which an amount may have a fraction of a cent is a binary64 itself. -/
theorem toBinary64_wholeCents : Decimal.toBinary64 ⟨false, 10 ^ (14 : Nat), 0⟩ = finite false .wholeCents := by
  decide +kernel

/-- It is `10 ^ 14` exactly: with 47 binary digits nothing is rounded. -/
theorem units_wholeCents : Magnitude.wholeCents.units = 10 ^ (14 : Nat) * unitsPerOne := by
  unfold unitsPerOne
  decide +kernel

/-- Amounts that may need rounding are far below those that are too large for it. -/
theorem wholeCents_lt_beyondCents : Magnitude.wholeCents.units < Magnitude.beyondCents.units := by
  decide +kernel

/-- **Rounding twice is rounding once**: the price that comes out has two places at most, and stays as it is. -/
theorem roundMoney_of_roundMoney_false {m r : Magnitude}
    (h : (finite false m).roundMoney = some (finite false r)) :
    (finite false r).roundMoney = some (finite false r) := by
  by_cases he : -2 ≤ (shortestMagnitude m).exponent
  · obtain ⟨-, rfl⟩ := finite.inj (eq_of_roundMoney_of_exponent he h)
    exact h
  obtain ⟨n, exponent, hd⟩ := exists_shortestMagnitude m
  obtain ⟨r', hr', hread⟩ := exists_magnitude_of_roundMoney hd h
  obtain ⟨-, rfl⟩ := finite.inj hr'
  have hsmall : r.units ≤ Magnitude.wholeCents.units := by
    have hlt : m.units < Magnitude.wholeCents.units := by
      rw [units_wholeCents]
      exact units_lt_of_exponent (Int.not_le.1 he)
    have hcents := Decimal.inPlaces_le_of_toBinary64 2 (hd ▸ toBinary64_shortestMagnitude m)
      toBinary64_wholeCents hlt
    have hle := Decimal.toBinary64_le hcents (-2)
    rwa [hread, Decimal.toBinary64_inPlaces (by decide), toBinary64_wholeCents, finite_le_finite] at hle
  cases hround : (finite false r).roundMoney with
  | none =>
    have hbeyond : Magnitude.beyondCents.units ≤ r.units :=
      finite_le_finite.1 ((roundMoney_eq_none_iff (finite false r)).1 hround)
    have := wholeCents_lt_beyondCents
    omega
  | some x => rw [eq_of_roundMoney_of_exponent (exponent_shortestMagnitude_ge hread) hround]

/-- **What is rounded stays as it is.** So a price may be rounded again where it is shown, added up or compared,
without any change. -/
theorem roundMoney_of_roundMoney {x y : Binary64} (h : x.roundMoney = some y) : y.roundMoney = some y := by
  cases x with
  | finite s m =>
    obtain ⟨r, rfl, hr⟩ := exists_finite_of_roundMoney h
    exact roundMoney_finite_of_false s (roundMoney_of_roundMoney_false hr)
  | infinite s => cases h
  | nan =>
    obtain rfl := Option.some.inj h
    exact h

/-! ### Minimum fees -/

/-- An amount, or a positive minimum that it is below. -/
def raisedTo (x minimum : Binary64) : Binary64 :=
  if minimum.isPositive && x.lt minimum then minimum else x

/-- A number raised to a minimum is not below it. -/
theorem le_raisedTo {x minimum : Binary64} (hx : x.isNan = false) (hpositive : minimum.isPositive) :
    minimum.le (x.raisedTo minimum) := by
  have hminimum := (isNan_of_lt hpositive).2
  unfold raisedTo
  cases hlow : x.lt minimum with
  | true =>
    rw [hpositive, Bool.and_self, if_pos rfl]
    exact le_refl hminimum
  | false =>
    rw [Bool.and_false, if_neg Bool.false_ne_true]
    exact le_of_lt_eq_false hx hminimum hlow

/-- What is at least a positive number is positive. -/
theorem isPositive_of_le {x y : Binary64} (hx : x.isPositive) (h : x.le y) : y.isPositive :=
  lt_of_lt_of_le hx h

theorem abs_eq_self {x : Binary64} (h : x.isPositive) : x.abs = x := by
  obtain ⟨a, b, ha, hb, hab⟩ := lt_iff_exists.1 h
  obtain rfl : 0 = a := Option.some.inj ha
  rcases x with ⟨_ | _, m⟩ | ⟨_ | _⟩ | _
  · rfl
  · obtain rfl := Option.some.inj hb
    omega
  · rfl
  · obtain rfl := Option.some.inj hb
    omega
  · rfl

/-- Nothing positive below an amount that can be rounded is beyond rounding. -/
theorem exists_roundMoney_of_le {x y z : Binary64} (hx : x.isPositive) (h : x.le y)
    (hz : y.roundMoney = some z) : ∃ r, x.roundMoney = some r := by
  refine Option.ne_none_iff_exists'.1 fun hnone => ?_
  have hbeyond : y.IsBeyondCents := by
    have hle : (finite false .beyondCents).le x.abs := (roundMoney_eq_none_iff x).1 hnone
    rw [IsBeyondCents, abs_eq_self (isPositive_of_le hx h)]
    rw [abs_eq_self hx] at hle
    exact le_trans hle h
  rw [(roundMoney_eq_none_iff y).2 hbeyond] at hz
  cases hz

/-- A positive amount that can be rounded has a magnitude, and so has its rounding. -/
theorem exists_magnitude_of_isPositive {x y : Binary64} (hx : x.isPositive) (h : x.roundMoney = some y) :
    ∃ r, y = finite false r := by
  rcases x with ⟨s, m⟩ | s | _
  · obtain ⟨r, rfl, -⟩ := exists_finite_of_roundMoney h
    obtain rfl : s = false := by
      have := abs_eq_self hx
      exact (finite.inj this).1.symm
    exact ⟨r, rfl⟩
  · cases h
  · cases hx

/-- Roundings of positive amounts that are not above each other are the same. -/
theorem eq_of_le_of_le {x y x' y' : Binary64} (hx : x.isPositive) (hy : y.isPositive)
    (hx' : x.roundMoney = some x') (hy' : y.roundMoney = some y') (hle : x'.le y') (hge : y'.le x') :
    x' = y' := by
  obtain ⟨a, rfl⟩ := exists_magnitude_of_isPositive hx hx'
  obtain ⟨b, rfl⟩ := exists_magnitude_of_isPositive hy hy'
  rw [finite_le_finite] at hle hge
  rw [Magnitude.ext_units (Nat.le_antisymm hle hge)]

/-- Rounding neither makes a `nan` nor takes one away. -/
theorem isNan_of_roundMoney {x y : Binary64} (h : x.roundMoney = some y) : y.isNan = x.isNan := by
  cases x with
  | finite s m =>
    obtain ⟨r, rfl, -⟩ := exists_finite_of_roundMoney h
    rfl
  | infinite s => cases h
  | nan => exact congrArg isNan (Option.some.inj h).symm

/-- **Raising a rounded amount and rounding again is raising and rounding.** Since rounding keeps the order, the
larger of the two is the same before and after it. -/
theorem roundMoney_raisedTo {minimum x y z : Binary64} (hy : x.roundMoney = some y)
    (hz : (x.raisedTo minimum).roundMoney = some z) : (y.raisedTo minimum).roundMoney = some z := by
  have hyy := roundMoney_of_roundMoney hy
  have hnan := isNan_of_roundMoney hy
  unfold raisedTo at hz ⊢
  cases hpositive : minimum.isPositive with
  | false => simpa [hpositive, hyy, hy] using hz
  | true =>
    have hnan' := (isNan_of_lt hpositive).2
    cases hbefore : x.lt minimum with
    | true =>
      simp only [hpositive, hbefore, Bool.and_self, if_true] at hz
      cases hafter : y.lt minimum with
      | true => exact hz
      | false =>
        -- The amount is rounded over the minimum, and the minimum with it.
        have hle := le_of_lt_eq_false (hnan.trans (isNan_of_lt hbefore).1) hnan' hafter
        have heq : y = z := eq_of_le_of_le (isPositive_of_le hpositive hle) hpositive hyy hz
          (roundMoney_mono (le_of_lt hbefore) hy hz) (roundMoney_mono hle hz hyy)
        rw [Bool.and_false, if_neg Bool.false_ne_true, hyy, heq]
    | false =>
      simp only [hpositive, hbefore, Bool.and_false, Bool.false_eq_true, if_false] at hz
      obtain rfl : y = z := Option.some.inj (hy.symm.trans hz)
      cases hafter : y.lt minimum with
      | false => exact hyy
      | true =>
        -- The amount is rounded below the minimum, and the minimum with it.
        have hle := le_of_lt_eq_false (hnan.symm.trans (isNan_of_lt hafter).1) hnan' hbefore
        obtain ⟨r, hr⟩ := exists_roundMoney_of_le hpositive hle hy
        have heq : r = y := eq_of_le_of_le hpositive (isPositive_of_le hpositive hle) hr hy
          (roundMoney_mono hle hr hy) (roundMoney_mono (le_of_lt hafter) hyy hr)
        rw [Bool.and_true, if_pos rfl, hr, heq]

end Binary64

/-- The amount in cents is the rounded one; there is none where rounding breaks off. -/
theorem cents_eq_ok_iff {x y : Binary64} : cents x = .ok y ↔ x.roundMoney = some y := by
  unfold cents
  cases x.roundMoney <;> simp

/-- **Raising to a minimum and rounding can be changed in their order.** If an amount is rounded, raised to the
minimum and rounded again, the fee is the same as if it had been raised first. -/
theorem cents_raisedTo {minimum x y fee : Binary64} (hy : cents x = .ok y)
    (hfee : cents (x.raisedTo minimum) = .ok fee) : cents (y.raisedTo minimum) = .ok fee :=
  cents_eq_ok_iff.2 (Binary64.roundMoney_raisedTo (cents_eq_ok_iff.1 hy) (cents_eq_ok_iff.1 hfee))

end Tariff
