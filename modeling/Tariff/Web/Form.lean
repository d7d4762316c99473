/-
# Forms

The body of a request is an object with fields of known kinds; others are ignored. A reader gives the
value of a field or refuses it.

| kind | accepts |
| --- | --- |
| text | text |
| flag | booleans, the numbers `0` and `1`, and words such as `true`, `off`, `y` in any case |
| number | numbers, booleans, and text that writes a number |
| texts | lists of text |
| answers | objects |

An optional field may also be null.

Text writes a number in ASCII, either with white space around it or with single underscores inside it,
which may stand between any two of its characters.

| text | number |
| --- | --- |
| ` 1.5 `, `1_000`, `1e_5`, `in_f`, `1._5` | yes |
| ` 1_000 `, `1__0`, `_1`, `1_`, `٣`, `- 5` | no |
-/

import Tariff.Answers
import Tariff.Number.Numeral
import Tariff.Pricing.Rule
import Tariff.Text.Lower

namespace Tariff
namespace Web

/-- Reads a value of some kind, or refuses it. -/
abbrev Field (α : Type) := Json → Option α

namespace Field

def text : Field String
  | .text s => some s
  | _ => none

/-- A truth value in words. -/
def word (s : String) : Option Bool :=
  let w := lower s
  if ["1", "on", "t", "true", "y", "yes"].contains w then some true
  else if ["0", "off", "f", "false", "n", "no"].contains w then some false
  else none

def flag : Field Bool
  | .bool b => some b
  | .int n => if n = 0 then some false else if n = 1 then some true else none
  | .real x => if x.isZero then some false else if x.eq .one then some true else none
  | .text s => word s
  | _ => none

/-- Whether underscores stand alone and inside a text only. -/
def separatedInside (cs : List Char) : Bool :=
  cs.head? ≠ some '_' && cs.getLast? ≠ some '_' && !isInside ['_', '_'] cs

/-- A number in words: underscores are left out where white space is not. -/
def numeral (s : String) : Option Binary64 :=
  let cs := s.toList
  match Numeral.number? (Numeral.unpad cs) with
  | some x => some x
  | none =>
    if cs.contains '_' && separatedInside cs then Numeral.number? (cs.filter (· ≠ '_')) else none

def number : Field Binary64
  | .bool b => some (if b then .one else .zero)
  | .int n => if (Binary64.ofInt n).isFinite then some (.ofInt n) else none
  | .real x => some x
  | .text s => numeral s
  | _ => none

def textItems : List Json → Option (List String)
  | [] => some []
  | .text s :: rest => (textItems rest).map (s :: ·)
  | _ :: _ => none

def texts : Field (List String)
  | .list items => textItems items
  | _ => none

def answers : Field Json
  | .object fields => some (.object fields)
  | _ => none

def orNull {α : Type} (field : Field α) : Field (Option α)
  | .null => some none
  | v => (field v).map some

end Field

/-- A field that has to be there. -/
def required {α : Type} (body : Json) (key : String) (field : Field α) : Option α :=
  (body.get? key).bind field

/-- A field that has a value by default. -/
def optional {α : Type} (body : Json) (key : String) (field : Field α) (default : α) : Option α :=
  match body.get? key with
  | some v => field v
  | none => some default

/-- Bodies are objects. -/
def object? (body : Option Json) : Option Json :=
  match body with
  | some (.object fields) => some (.object fields)
  | _ => none

/-- A rule in a body. -/
def ruleForm (body : Json) : Option Rule := do
  let body ← object? (some body)
  let d : Rule := { id := "" }
  let text? := fun (key : String) => optional body key (Field.orNull Field.text) none
  let number? := fun (key : String) => optional body key (Field.orNull Field.number) none
  return {
    id := ← required body "rule_id" Field.text
    formula := ← optional body "expression" Field.text d.formula
    lowest := ← number? "minimum_value"
    highest := ← number? "maximum_value"
    service := ← text? "service_id"
    title := ← optional body "name" Field.text d.title
    category := ← text? "pricing_type"
    billing := ← text? "billing_frequency"
    isActive := ← optional body "active" Field.flag d.isActive
    method := ← optional body "calculation_method" Field.text d.method
    basePrice := ← optional body "base_price" Field.number d.basePrice
    unitPrice := ← number? "unit_price"
    unitName := ← text? "unit_name"
    quantityField := ← text? "quantity_source_field"
    triggerField := ← text? "trigger_field"
    required := ← text? "required_value"
    operator := ← text? "comparison_logic"
    isDiscountable := ← optional body "discount_eligible" Field.flag d.isDiscountable
    discount := ← optional body "discount_percentage" Field.number d.discount }

/-- A request for a quote. -/
structure QuoteForm where
  answers : Json
  services : Option (List String)

def quoteForm (body : Option Json) : Option QuoteForm := do
  let body ← object? body
  return {
    answers := ← optional body "answers" Field.answers (.object [])
    services := ← optional body "services" (Field.orNull Field.texts) none }

/-- A formula to try on answers. -/
structure FormulaForm where
  formula : String
  answers : Json

def formulaForm (body : Option Json) : Option FormulaForm := do
  let body ← object? body
  return {
    formula := ← required body "expression" Field.text
    answers := ← optional body "answers" Field.answers (.object []) }

/-- A rule to try on answers: one of the catalog by its id, or one of its own. -/
structure TrialForm where
  ruleId : Option String
  rule : Option Rule
  answers : Json
  services : Option (List String)

def trialForm (body : Option Json) : Option TrialForm := do
  let body ← object? body
  return {
    ruleId := ← optional body "rule_id" (Field.orNull Field.text) none
    rule := ← optional body "rule" (Field.orNull ruleForm) none
    answers := ← optional body "answers" Field.answers (.object [])
    services := ← optional body "services" (Field.orNull Field.texts) none }

end Web
end Tariff
