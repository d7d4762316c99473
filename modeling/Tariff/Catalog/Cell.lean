/-
# Cells

A cell of a catalog is text; a blank one leaves the field at its default.

| field | text | value |
| --- | --- | --- |
| flag | `true`, `1`, `yes`, `on`, `checked` in any case | true |
| flag | anything else | false |
| bound | `$1,250.00` | `1250`; other text is refused |
| amount | as a bound | zero if it is refused |
| share | `50%` | `0.5` |
| share | `0.5` | `0.5`; zero if it is no number |
-/

import Tariff.Number.Arithmetic
import Tariff.Number.Numeral
import Tariff.Text.Lower

namespace Tariff
namespace Cell

/-- The trimmed text of a cell that is not blank. -/
def text? (cell : String) : Option String :=
  let t := trim cell
  if t.isEmpty then none else some t

def flag (default : Bool) (cell : String) : Bool :=
  match text? cell with
  | none => default
  | some t => ["true", "1", "yes", "on", "checked"].contains (lower t)

/-- A number among currency signs and thousands separators; the outer `none` refuses the text. -/
def bound? (cell : String) : Option (Option Binary64) :=
  match text? cell with
  | none => some none
  | some t =>
    let bare := String.ofList (t.toList.filter fun c => c ≠ '$' && c ≠ ',')
    (Binary64.parse? bare).map some

def amount (cell : String) : Binary64 :=
  match bound? cell with
  | some (some x) => if x.isZero then .zero else x
  | _ => .zero

def share (cell : String) : Binary64 :=
  match (trim cell).toList.reverse with
  | '%' :: front =>
    ((Binary64.parse? (String.ofList front.reverse)).map (· / Binary64.ofNat 100)).getD .zero
  | _ => (Binary64.parse? (trim cell)).getD .zero

end Cell
end Tariff
