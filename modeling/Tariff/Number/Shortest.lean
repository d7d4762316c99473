/-
# The shortest decimal that reads back

Of all decimals whose nearest binary64 is `x`, `Binary64.shortest` gives one with the fewest digits,
and of those the nearest to `x`. With `n` digits only two decimals can qualify, the neighbours of
`x` on the grid of its first `n` digits, so the search tries those for `n = 1, 2, …, 17`; "reads
back" is `Decimal.toBinary64` itself.

| `x` | below | above | shortest |
| --- | --- | --- | --- |
| `0.1` | `1 · 10⁻¹` reads back | | `1 · 10⁻¹` |
| `5 · 10⁻³²⁴` | `4 · 10⁻³²⁴` reads back | `5 · 10⁻³²⁴` reads back, nearer | `5 · 10⁻³²⁴` |
-/

import Tariff.Number.Decimal

namespace Tariff

attribute [local instance (high)] instPowNat

namespace Binary64

/-- The exponent of the leading decimal digit of a positive number of units: counted on the whole
part from one on, and below one on the number scaled by `10 ^ 324`. -/
def topExponent (units : Nat) : Int :=
  if unitsPerOne ≤ units then (digitCount (units / unitsPerOne) : Int) - 1
  else (digitCount (units * 10 ^ (324 : Nat) / unitsPerOne) : Int) - 325

/-- `units` divided by `10 ^ e`, as a quotient of whole numbers. -/
def scaled (units : Nat) (e : Int) : Nat × Nat :=
  if 0 ≤ e then (units, unitsPerOne * 10 ^ e.toNat)
  else (units * 10 ^ (-e).toNat, unitsPerOne)

/-- The neighbour on the grid of multiples of `10 ^ e` that reads back as the given magnitude, the
nearer one if both do, the even one of two equally near. -/
def onGrid? (m : Magnitude) (e : Int) : Option Decimal :=
  let (num, den) := scaled m.units e
  let below : Decimal := ⟨false, num / den, e⟩
  let above : Decimal := ⟨false, num / den + 1, e⟩
  let target := finite false m
  let nearer := if nearestEven num den = num / den then [below, above] else [above, below]
  nearer.find? fun d => d.toBinary64 = target

/-- Every digit of a magnitude, to `1074` places. -/
def everyDigit (m : Magnitude) : Decimal :=
  ⟨false, m.units * 10 ^ (1074 : Nat) / unitsPerOne, -1074⟩

/-- The fewest digits that read back. -/
def shortestMagnitude (m : Magnitude) : Decimal :=
  if m.units = 0 then ⟨false, 0, 0⟩
  else
    let top := topExponent m.units
    let grids := (List.range 17).map fun (n : Nat) => top - n
    ((grids.findSome? (onGrid? m)).getD (everyDigit m)).strip

/-- The shortest decimal of a finite number, the nearest of the shortest, without trailing zeros. -/
def shortest (negative : Bool) (m : Magnitude) : Decimal :=
  { shortestMagnitude m with negative := negative }

/-- Round to a number of places as money: on the shortest decimal, halves away from zero. `none` for
an infinity and where `Decimal.roundTo` refuses; `nan` stays as it is. -/
def roundTo (places : Int) : Binary64 → Option Binary64
  | finite s m => ((shortest s m).roundTo places).map Decimal.toBinary64
  | infinite _ => none
  | nan => some nan

/-- Cents. -/
def roundMoney : Binary64 → Option Binary64 := roundTo 2

end Binary64
end Tariff
