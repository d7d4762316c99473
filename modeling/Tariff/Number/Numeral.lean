/-
# Reading numbers

A numeral may have white space around it, a sign in front, decimal digits of any script, and single
underscores between digits.

| text | number |
| --- | --- |
| `12`, `1_000`, `٣`, ` 7 ` | whole |
| `5.`, `.5`, `1e5`, `-2.5E-3` | decimal |
| `inf`, `-Infinity`, `NaN`, any case | infinity, `nan` |
| `1__0`, `_1`, `1_.5`, `0x10`, `1e`, `.` | none |

The separators `U+001C` to `U+001F` are white space but not around a numeral.
-/

import Tariff.Number.Written
import Tariff.Text.Blank
import Tariff.Text.Digit

namespace Tariff
namespace Numeral

/-- White space that may stand around a numeral. -/
def isPadding (c : Char) : Bool := isBlank c && !('\x1c' ≤ c && c ≤ '\x1f')

def unpad (cs : List Char) : List Char :=
  ((cs.dropWhile isPadding).reverse.dropWhile isPadding).reverse

/-- Decimal digits of every script as those of one. -/
def plainDigits (cs : List Char) : List Char :=
  cs.map fun c => ((decimalValue? c).map digitChar).getD c

/-- Leave out underscores; `none` if one does not stand between two digits. The flag says whether
the character before was a digit. -/
def ungroup : Bool → List Char → Option (List Char)
  | _, [] => some []
  | afterDigit, '_' :: rest =>
    if afterDigit && (rest.head?.map Char.isDigit).getD false then ungroup false rest else none
  | _, c :: rest => (ungroup c.isDigit rest).map (c :: ·)

/-- The characters of a numeral, ready for its grammar. -/
def normalise (s : String) : Option (List Char) :=
  ungroup false (plainDigits (unpad s.toList))

/-- A sign in front: whether it is a minus, and the rest. -/
def signed : List Char → Bool × List Char
  | '-' :: rest => (true, rest)
  | '+' :: rest => (false, rest)
  | rest => (false, rest)

/-- The number that decimal digits write. -/
def digitsValue (cs : List Char) : Nat :=
  cs.foldl (fun n c => 10 * n + (c.toNat - '0'.toNat)) 0

/-- An exponent with its mark, or nothing at all. -/
def exponent? : List Char → Option Int
  | [] => some 0
  | c :: rest =>
    if c = 'e' || c = 'E' then
      let (negative, digits) := signed rest
      if digits ≠ [] ∧ digits.all Char.isDigit then
        some (if negative then -digitsValue digits else digitsValue digits)
      else none
    else none

/-- Digits with at most one point among them and an exponent behind. -/
def decimal? (negative : Bool) (cs : List Char) : Option Decimal :=
  let whole := cs.takeWhile Char.isDigit
  let rest := cs.dropWhile Char.isDigit
  let (places, rest) := match rest with
    | '.' :: r => (r.takeWhile Char.isDigit, r.dropWhile Char.isDigit)
    | r => ([], r)
  if whole.isEmpty && places.isEmpty then none
  else (exponent? rest).map fun e =>
    ⟨negative, digitsValue (whole ++ places), e - places.length⟩

/-- The names of the numbers without digits. -/
def named? (negative : Bool) (cs : List Char) : Option Binary64 :=
  let name := String.ofList (cs.map Char.toLower)
  if name = "inf" || name = "infinity" then some (.infinite negative)
  else if name = "nan" then some .nan
  else none

/-- The most digits that a whole number may have. -/
def longest : Nat := 4300

/-- A whole number: sign and digits only. -/
def int? (s : String) : Option Int := do
  let (negative, digits) := signed (← normalise s)
  if digits ≠ [] ∧ digits.all Char.isDigit ∧ digits.length ≤ longest then
    some (if negative then -digitsValue digits else digitsValue digits)
  else none

/-- The number that characters write, nothing left to be made ready. -/
def number? (cs : List Char) : Option Binary64 :=
  let (negative, cs) := signed cs
  match named? negative cs with
  | some x => some x
  | none => (decimal? negative cs).map Decimal.toBinary64

end Numeral

/-- The number that a text writes. -/
def Binary64.parse? (s : String) : Option Binary64 :=
  (Numeral.normalise s).bind Numeral.number?

end Tariff
