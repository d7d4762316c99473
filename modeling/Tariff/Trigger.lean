/-
# Triggers

A rule may apply only if an answer meets a condition: an operator and a required text.

| operator | holds for an answer `a` and a requirement `r` if |
| --- | --- |
| `isEmpty`, `isNotEmpty` | there is no answer, there is one |
| `equals`, `notEquals` | the texts agree, or not, but for case and surrounding white space |
| `contains`, `includes`, `notContains` | the text of `a`, or of an element of it, has `r` inside, or none has |
| `lessThan` and so on | both write amounts, and those compare so |

Without an answer only `isEmpty` holds. An amount is the number that is left of a text when all but
digits, points and hyphens are removed, so `$1,250.00` counts.
-/

import Tariff.Answers

namespace Tariff

/-- A comparison of amounts. -/
inductive Comparison where
  | less | atMost | greater | atLeast
  deriving DecidableEq, Repr

namespace Comparison

def holds : Comparison → Binary64 → Binary64 → Bool
  | less, x, y => x.lt y
  | atMost, x, y => x.le y
  | greater, x, y => y.lt x
  | atLeast, x, y => y.le x

end Comparison

inductive Operator where
  | isEmpty | isNotEmpty
  | equals | notEquals
  | contains | includes | notContains
  | compares (c : Comparison)
  deriving DecidableEq, Repr

namespace Operator

def all : List Operator :=
  [isEmpty, isNotEmpty, equals, notEquals, contains, includes, notContains, compares .less,
    compares .atMost, compares .greater, compares .atLeast]

def name : Operator → String
  | isEmpty => "isEmpty"
  | isNotEmpty => "isNotEmpty"
  | equals => "equals"
  | notEquals => "notEquals"
  | contains => "contains"
  | includes => "includes"
  | notContains => "notContains"
  | compares .less => "lessThan"
  | compares .atMost => "lessThanOrEqual"
  | compares .greater => "greaterThan"
  | compares .atLeast => "greaterThanOrEqual"

def ofName? (name : String) : Option Operator := all.find? fun op => op.name = name

/-- An operator is found under its own name, so what is written into a catalog can be read again. -/
theorem ofName?_name (op : Operator) : ofName? op.name = some op := by
  rcases op with _ | _ | _ | _ | _ | _ | _ | ⟨_ | _ | _ | _⟩ <;> decide

end Operator

namespace Trigger

/-- Text as compared by `equals`. -/
def fold (s : String) : String := lower (trim s)

def hasInside (needle : String) (v : Json) : Bool :=
  isInside (lower needle).toList (lower v.wording).toList

def isAmountChar (c : Char) : Bool := c.isDigit || c = '.' || c = '-'

/-- The amount that a text writes. -/
def amount? (s : String) : Option Binary64 :=
  Binary64.parse? (String.ofList (s.toList.filter isAmountChar))

/-- Whether an answer meets a requirement. -/
def met (op : Operator) (required : String) (v : Json) : Bool :=
  match op with
  | .isEmpty => false
  | .isNotEmpty => true
  | .equals => fold v.wording = fold required
  | .notEquals => !decide (fold v.wording = fold required)
  | .contains | .includes => found
  | .notContains => !found
  | .compares c =>
    match amount? v.wording, amount? required with
    | some x, some y => c.holds x y
    | _, _ => false
where
  found : Bool :=
    match v with
    | .list items => items.any (hasInside required)
    | v => hasInside required v

/-- Whether the answer found, if any, meets a requirement under an operator. -/
def decides (op : Operator) (required : String) : Option Json → Bool
  | none => op = .isEmpty
  | some v => if v.isUnanswered then op = .isEmpty else met op required v

/-- Whether a condition on answers holds; an unknown operator never does. -/
def holds (answers : Json) (field : String) (required : String) (operator : String) :
    Except Halt Bool := do
  let found ← answers.atPath field
  match Operator.ofName? operator with
  | some op => return decides op required found
  | none => return false

end Trigger
end Tariff
