/-
# Pricing rules

A rule gives one price. It has an id, a way of calculating, bounds for the result, perhaps a trigger
and a service it belongs to, and a discount.

| method | price before bounds |
| --- | --- |
| `formula` | the number of its formula |
| `simple` | the base price |
| `per-unit` | quantity times unit price, the base price without either |
| any other | the base price |
-/

import Tariff.Number.Arithmetic

namespace Tariff

structure Rule where
  id : String
  formula : String := ""
  lowest : Option Binary64 := none
  highest : Option Binary64 := none
  service : Option String := none
  title : String := ""
  /-- The kind of price, such as `Base Service`, `Add-on` or `Discount`. -/
  category : Option String := none
  /-- How often it is billed, such as `Monthly`. -/
  billing : Option String := none
  isActive : Bool := true
  method : String := "formula"
  basePrice : Binary64 := .zero
  unitPrice : Option Binary64 := none
  unitName : Option String := none
  /-- The path of the answer that gives the quantity. -/
  quantityField : Option String := none
  /-- The path of the answer that the trigger looks at. -/
  triggerField : Option String := none
  required : Option String := none
  operator : Option String := none
  isDiscountable : Bool := false
  /-- The share taken off. -/
  discount : Binary64 := .zero
  deriving DecidableEq, Inhabited

/-- The ways of calculating a price. -/
inductive Method where
  | formula | simple | perUnit
  deriving DecidableEq, Repr

namespace Method

def all : List Method := [formula, simple, perUnit]

def name : Method → String
  | formula => "formula"
  | simple => "simple"
  | perUnit => "per-unit"

def ofName? (name : String) : Option Method := all.find? fun m => m.name = name

end Method

/-- A text that is there and not empty. -/
def nonEmpty? : Option String → Option String
  | some s => if s.isEmpty then none else some s
  | none => none

namespace Rule

/-- The field and the operator of a trigger, if the rule has both. -/
def trigger? (r : Rule) : Option (String × String) :=
  match nonEmpty? r.triggerField, nonEmpty? r.operator with
  | some field, some operator => some (field, operator)
  | _, _ => none

/-- The name shown for a rule. -/
def label (r : Rule) : String := if r.title.isEmpty then r.id else r.title

/-- The lower bound, then the upper one; where they cross the upper one decides. -/
def clamp (lowest highest : Option Binary64) (x : Binary64) : Binary64 :=
  let raised := match lowest with
    | some low => if x.lt low then low else x
    | none => x
  match highest with
  | some high => if high.lt raised then high else raised
  | none => raised

end Rule
end Tariff
