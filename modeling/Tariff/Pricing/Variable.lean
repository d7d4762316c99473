/-
# Variables

What the name of a placeholder stands for. The first source that fits decides:

| name | number |
| --- | --- |
| begins with the rule prefix | the price of that rule in this pass |
| the recurring rate's | the recurring rate |
| the total of a service row | that total, under the row's effective filter |
| a path with a point in it | the answer there, unless null |
| anything | the answer of that very name, unless null |

A name that no source knows, or a rule without a price yet, counts zero and leaves a warning.
-/

import Tariff.Pricing.Terms
import Tariff.Pricing.Total
import Tariff.Text.Blank

namespace Tariff

/-- All that a variable may be read from. -/
structure Sources where
  answers : Json
  ledger : Ledger
  services : List Service
  terms : Terms

/-- Why a name has no number. -/
inductive Unresolved where
  | unknown (name : String)
  /-- The rule that `name` refers to has no price. -/
  | notPriced (name : String) (ruleId : String)
  deriving DecidableEq, Repr

namespace Unresolved

def message : Unresolved → String
  | unknown name =>
    "Variable \"" ++ name ++ "\" not found in answers, computed prices or services"
  | notPriced _ ruleId => "Pricing rule \"" ++ ruleId ++ "\" has not been evaluated yet"

def kind : Unresolved → String
  | unknown _ => "UnresolvedVariable"
  | notPriced _ _ => "ForwardReference"

end Unresolved

/-- Why looking a name up gives nothing. -/
inductive LookupFault where
  | unresolved (u : Unresolved)
  | halt (h : Halt)
  deriving DecidableEq

namespace Sources

/-- What is left of a text behind its beginning. -/
def afterPrefix? (beginning text : String) : Option String :=
  if beginning.toList.isPrefixOf text.toList then
    some (String.ofList (text.toList.drop beginning.length))
  else none

/-- The first service row whose total has a name. -/
def totalNamed? (s : Sources) (name : String) : Option Service :=
  s.services.find? fun row => nonEmpty? row.total = some name

/-- The answer that a name stands for. -/
def answer? (s : Sources) (name : String) : Except Halt (Option Json) := do
  let nested ← if name.toList.contains '.' then s.answers.atPath name else pure none
  match nested with
  | none | some .null =>
    match s.answers.get? name with
    | none | some .null => return none
    | found => return found
  | found => return found

/-- Where a number was found, and what was done to find it. -/
structure Found where
  value : Binary64
  source : String
  entries : List Entry := []

/-- The number of a trimmed name. -/
def find (s : Sources) (name : String) : Except LookupFault Found :=
  match afterPrefix? s.terms.rulePrefix name with
  | some id =>
    match s.ledger.find? id with
    | some p => .ok ⟨p.value, "computed price", []⟩
    | none => .error (.unresolved (.notPriced name id))
  | none =>
    if name = s.terms.rateName then
      match s.ledger.recurringRate s.terms.rateTag s.terms.rateFallback with
      | .ok (rate, entries) => .ok ⟨rate, "recurring rate", entries⟩
      | .error h => .error (.halt h)
    else
      match s.totalNamed? name with
      | some row =>
        match s.ledger.serviceTotal row.id row.effectiveFilter with
        | .ok (total, entries) => .ok ⟨total, "service total (" ++ row.id ++ ")", entries⟩
        | .error h => .error (.halt h)
      | none =>
        match s.answer? name with
        | .ok (some v) => .ok ⟨v.number, "answers", []⟩
        | .ok none => .error (.unresolved (.unknown name))
        | .error h => .error (.halt h)

/-- A name in double braces. -/
def braced (name : String) : String := "\x7b\x7b" ++ name ++ "\x7d\x7d"

/-- The number of a name, or why there is none. -/
def resolveStrict (s : Sources) (name : String) (ruleId : Option String) (j : Journal) :
    Except LookupFault (Binary64 × Journal) := do
  let name := trim name
  let found ← s.find name
  let resolved : Entry :=
    ⟨"Resolve", braced name ++ " from " ++ found.source, some found.value.brief, ruleId⟩
  return (found.value, j.record (found.entries ++ [resolved]))

/-- The number of a name, zero with a warning if there is none. -/
def resolve (s : Sources) (name : String) (ruleId : Option String) (j : Journal) :
    Except Halt (Binary64 × Journal) :=
  match s.resolveStrict name ruleId j with
  | .ok found => .ok found
  | .error (.halt h) => .error h
  | .error (.unresolved u) =>
    .ok (.zero, (j.warn u.message).record [⟨u.kind, braced name ++ " defaulted", some "0", ruleId⟩])

/-- The numbers of several names, one after the other. -/
def resolveAll (s : Sources) (ruleId : Option String) :
    List String → Journal → Except Halt (List (String × Binary64) × Journal)
  | [], j => .ok ([], j)
  | name :: rest, j => do
    let (x, j) ← s.resolve name ruleId j
    let (xs, j) ← s.resolveAll ruleId rest j
    return ((name, x) :: xs, j)

end Sources
end Tariff
