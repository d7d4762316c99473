/-
# Decimals: what is read, written and rounded as money

A `Decimal` is `± digits · 10 ^ exponent`, exactly. It meets binary64 in two places: `toBinary64`
takes the nearest number of the format, and `Tariff.Number.Shortest` goes back. Money is rounded on
the decimal, not on the binary value, so that `2.675` is a tie: `Decimal.roundTo` keeps a number of
places, halves away from zero, and refuses a result of more than `28` significant digits.
-/

import Tariff.Number.Binary64

namespace Tariff

attribute [local instance (high)] instPowNat

/-- The number of decimal digits of a whole number; zero has one. -/
def digitCount (n : Nat) : Nat :=
  if n < 10 then 1 else digitCount (n / 10) + 1
termination_by n

/-- An exact decimal. -/
structure Decimal where
  negative : Bool
  digits : Nat
  exponent : Int
  deriving DecidableEq, Inhabited

namespace Decimal

/-- The exponent of the leading digit, as in scientific notation. -/
def top (d : Decimal) : Int := d.exponent + digitCount d.digits - 1

/-- The nearest binary64. A decimal of at least `10 ^ 310` is infinite and one below `10 ^ -324` is
zero without computing the power of ten. -/
def toBinary64 (d : Decimal) : Binary64 :=
  if d.digits = 0 ∨ d.top < -324 then .finite d.negative .zero
  else if 309 < d.top then .infinite d.negative
  else if 0 ≤ d.exponent then
    .ofRatio d.negative (d.digits * 10 ^ d.exponent.toNat * Binary64.unitsPerOne) 1
  else .ofRatio d.negative (d.digits * Binary64.unitsPerOne) (10 ^ (-d.exponent).toNat)

/-- The most significant digits that a rounded amount may have. -/
def precision : Nat := 28

/-- Round to a number of places, halves away from zero; `none` if the result has more significant
digits than `precision`. Negative places round to tens, hundreds and so on. -/
def roundTo (places : Int) (d : Decimal) : Option Decimal :=
  let shift := d.exponent + places
  if d.digits = 0 ∨ d.top + places < -1 then some ⟨d.negative, 0, -places⟩
  else if precision < d.top + places + 1 then none
  else
    let rounded :=
      if 0 ≤ shift then d.digits * 10 ^ shift.toNat else nearestUp d.digits (10 ^ (-shift).toNat)
    if precision < digitCount rounded then none else some ⟨d.negative, rounded, -places⟩

/-- Leave out trailing zeros of the digits, as many as there are. -/
def strip (d : Decimal) : Decimal :=
  if _h : d.digits ≠ 0 ∧ d.digits % 10 = 0 then
    strip { d with digits := d.digits / 10, exponent := d.exponent + 1 }
  else d
termination_by d.digits
decreasing_by omega

example : roundTo 2 ⟨false, 2675, -3⟩ = some ⟨false, 268, -2⟩ ∧
    roundTo 2 ⟨true, 2675, -3⟩ = some ⟨true, 268, -2⟩ ∧
    roundTo 2 ⟨false, 1, 26⟩ = none ∧ roundTo (-1) ⟨false, 55, 0⟩ = some ⟨false, 6, 1⟩ := by
  decide +kernel

end Decimal
end Tariff
