/-
# Numbers as text

| form | `1e-05` | `2.675` | `-0.0` | `1e16` | used for |
| --- | --- | --- | --- | --- | --- |
| `text` | `1e-05` | `2.675` | `-0.0` | `1e+16` | values turned into text, fingerprints |
| `literal` | `0.00001` | `2.675` | `-0.0` | `10000000000000000` | operands pasted into formulas |
| `brief` | `1e-05` | `2.675` | `-0` | `1e+16` | figures in a journal, six digits |
| `fixed 2` | `0.00` | `2.67` | `-0.00` | `10000000000000000.00` | amounts |

`text` and `literal` write the shortest decimal that reads back; `brief` and `fixed` round the exact
binary value, ties to even.
-/

import Tariff.Number.Arithmetic
import Tariff.Number.Shortest

namespace Tariff

attribute [local instance (high)] instPowNat

/-- The character of a digit below ten. -/
def digitChar (d : Nat) : Char := Char.ofNat ('0'.toNat + d)

/-- Digits in front of `acc`, the leading one first. -/
def digitsOnto (n : Nat) (acc : List Char) : List Char :=
  if n < 10 then digitChar n :: acc else digitsOnto (n / 10) (digitChar (n % 10) :: acc)
termination_by n

/-- The decimal digits of a whole number, the leading one first. -/
def digitsOf (n : Nat) : List Char := digitsOnto n []

/-- A whole number in decimal. -/
def natText (n : Nat) : String := String.ofList (digitsOf n)

def intText (z : Int) : String :=
  if z < 0 then "-" ++ natText z.natAbs else natText z.natAbs

/-- Digits with a point before the last `places` of them, padded so that one digit stands in front;
no point without places. -/
def pointed (digits : List Char) (places : Nat) : List Char :=
  let padded := List.replicate (places + 1 - digits.length) '0' ++ digits
  let whole := padded.length - places
  if places = 0 then padded else padded.take whole ++ '.' :: padded.drop whole

/-- How a number is laid out. -/
structure Layout where
  /-- Positional notation begins at this exponent of the leading digit. -/
  least : Int
  /-- From this exponent of the leading digit on, scientific notation is used. -/
  beyond : Int
  /-- Whether a whole number in positional notation ends in `.0`. -/
  marksWhole : Bool

namespace Layout

/-- Every number keeps its kind: whole numbers end in `.0`. -/
def full : Layout := ⟨-4, 16, true⟩

/-- Six significant digits at most. -/
def brief : Layout := ⟨-4, 6, false⟩

def isPositional (l : Layout) (d : Decimal) : Bool := l.least ≤ d.top && d.top < l.beyond

end Layout

namespace Decimal

def signText (negative : Bool) (cs : List Char) : List Char := if negative then '-' :: cs else cs

/-- Positional notation: no exponent, and no point if there are no places. -/
def plain (d : Decimal) : List Char :=
  signText d.negative <|
    if 0 ≤ d.exponent then pointed (digitsOf (d.digits * 10 ^ d.exponent.toNat)) 0
    else pointed (digitsOf d.digits) (-d.exponent).toNat

/-- Scientific notation, the exponent signed and of at least two digits. -/
def scientific (d : Decimal) : List Char :=
  let digits := digitsOf d.digits
  let mantissa := pointed digits (digits.length - 1)
  let size := digitsOf d.top.natAbs
  signText d.negative
    (mantissa ++ 'e' :: (if d.top < 0 then '-' else '+') ::
      (List.replicate (2 - size.length) '0' ++ size))

/-- A decimal without trailing zeros in a layout. -/
def lay (l : Layout) (d : Decimal) : List Char :=
  if l.isPositional d then
    d.plain ++ (if l.marksWhole && 0 ≤ d.exponent then ['.', '0'] else [])
  else d.scientific

end Decimal

namespace Binary64

/-- The shortest text that reads back: `5.0`, `0.1`, `1e-05`, `nan`, `-inf`. -/
def text : Binary64 → String
  | finite s m => String.ofList ((shortest s m).lay .full)
  | infinite s => if s then "-inf" else "inf"
  | nan => "nan"

/-- The same digits without an exponent. -/
def literal : Binary64 → String
  | finite s m =>
    let d := shortest s m
    String.ofList (if Layout.full.isPositional d then d.lay .full else d.plain)
  | infinite s => if s then "-Infinity" else "Infinity"
  | nan => "NaN"

/-- Exactly rounded to a number of places, ties to even. -/
def fixed (places : Nat) : Binary64 → String
  | finite s m =>
    String.ofList <| Decimal.signText s
      (pointed (digitsOf (nearestEven (m.units * 10 ^ places) unitsPerOne)) places)
  | infinite s => if s then "-inf" else "inf"
  | nan => "nan"

/-- An amount, to the cent. -/
def amount (x : Binary64) : String := x.fixed 2

/-- A share in whole percent. -/
def percent (x : Binary64) : String := (x * ofNat 100).fixed 0 ++ "%"

/-- Exactly rounded to a number of significant digits, ties to even, without trailing zeros. -/
def significant (count : Nat) (negative : Bool) (m : Magnitude) : Decimal :=
  if m.units = 0 then ⟨negative, 0, 0⟩
  else
    let e := topExponent m.units - ((count : Int) - 1)
    let (num, den) := scaled m.units e
    Decimal.strip ⟨negative, nearestEven num den, e⟩

/-- Six significant digits at most. -/
def brief : Binary64 → String
  | finite s m => String.ofList ((significant 6 s m).lay .brief)
  | infinite s => if s then "-inf" else "inf"
  | nan => "nan"

end Binary64
end Tariff
