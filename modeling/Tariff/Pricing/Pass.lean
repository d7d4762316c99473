/-
# A pass over the rules

The rules are priced in catalog order, each from the answers and the prices before it. For each rule:

1. the second and later rules with an id are ignored with a warning;
2. a rule that does not apply is skipped;
3. its raw price is calculated by its method; a formula that fails counts zero and leaves a warning;
4. the raw price is brought within the rule's bounds and rounded to cents, and goes into the ledger.

A pass stops before its end only for a `Halt`.
-/

import Tariff.Formula
import Tariff.Pricing.Selection
import Tariff.Pricing.Variable

namespace Tariff

inductive Outcome where
  | evaluated | failed | skipped
  deriving DecidableEq, Repr

def Outcome.name : Outcome → String
  | evaluated => "evaluated"
  | failed => "failed"
  | skipped => "skipped"

/-- What a pass has come to. -/
structure Pass where
  ledger : Ledger := .empty
  /-- Each rule id seen so far with its outcome, in the order of first appearance. -/
  outcomes : List (String × Outcome) := []
  journal : Journal := {}

/-- What all rules of a pass are priced by. -/
structure Setting where
  answers : Json
  services : List Service
  selection : Selection
  terms : Terms

namespace Setting

/-- Whether rules that can be discounted are. -/
def discounts (s : Setting) : Bool := s.selection.names s.terms.discountService

end Setting

/-- A raw price with its outcome and the journal after it. -/
structure Raw where
  value : Binary64
  outcome : Outcome
  journal : Journal

namespace Rule

/-- A journal entry of a rule. -/
def entry (r : Rule) (step description : String) (value : Option String) : Entry :=
  ⟨step, description, value, some r.id⟩

/-- The raw price by formula. -/
def byFormula (r : Rule) (sources : Sources) (j : Journal) : Except Halt Raw :=
  let source := trim r.formula
  if source.isEmpty then
    .ok ⟨.zero, .evaluated, j.record [r.entry "Formula" "empty expression" (some "0")]⟩
  else do
    let (values, j) ← sources.resolveAll (some r.id) (Formula.placeholders source) j
    let filled := Formula.fill values source
    let j := j.record [r.entry "Formula" filled none]
    match Formula.evaluate filled with
    | .ok x => return ⟨x, .evaluated, j⟩
    | .error f =>
      let message := f.message filled
      return ⟨.zero, .failed,
        (j.warn ("Rule '" ++ r.id ++ "' failed: " ++ message)).record
          [r.entry f.kind message (some "0")]⟩

/-- The quantity field and the unit price of a per-unit rule that has both. -/
def unitTerms? (r : Rule) : Option (String × Binary64) :=
  match nonEmpty? r.quantityField, r.unitPrice with
  | some field, some unit => if unit.isZero then none else some (field, unit)
  | _, _ => none

/-- The quantity that answers give; one that is not given is zero. -/
def quantity (answers : Json) (field : String) : Except Halt Binary64 := do
  return ((← answers.atPath field).map Json.number).getD .zero

/-- The raw price by quantity. -/
def byUnit (r : Rule) (answers : Json) : Except Halt (Binary64 × List Entry) :=
  match r.unitTerms? with
  | some (field, unit) => do
    let quantity ← quantity answers field
    let price := quantity * unit
    let name := (nonEmpty? r.unitName).getD "units"
    return (price, [r.entry "Per Unit"
      (quantity.brief ++ " " ++ name ++ " × " ++ unit.brief) (some price.amount)])
  | none =>
    .ok (r.basePrice, [r.entry "Per Unit" "no quantity source or unit price, using base price"
      (some r.basePrice.amount)])

/-- The raw price of a rule that is not a formula, before its discount. -/
def undiscounted (r : Rule) (answers : Json) (j : Journal) : Except Halt (Binary64 × Journal) :=
  match Method.ofName? r.method with
  | some .perUnit => do
    let (price, entries) ← r.byUnit answers
    return (price, j.record entries)
  | some .simple => .ok (r.basePrice, j)
  | _ =>
    .ok (r.basePrice, j.warn ("Rule '" ++ r.id ++ "' has unknown calculation method '" ++ r.method
      ++ "', using base price"))

/-- The raw price of a rule that is not a formula. -/
def byMethod (r : Rule) (setting : Setting) (j : Journal) : Except Halt Raw := do
  let (price, j) ← r.undiscounted setting.answers j
  if setting.discounts && r.isDiscountable && r.discount.isPositive then
    let discounted := price * (Binary64.one - r.discount)
    let noted := r.entry "Discount"
      (r.discount.percent ++ " (" ++ setting.terms.discountService ++ " selected)")
      (some discounted.amount)
    return ⟨discounted, .evaluated, j.record [noted]⟩
  else return ⟨price, .evaluated, j⟩

/-- The raw price. -/
def raw (r : Rule) (setting : Setting) (ledger : Ledger) (j : Journal) : Except Halt Raw :=
  if Method.ofName? r.method = some .formula then
    r.byFormula ⟨setting.answers, ledger, setting.services, setting.terms⟩ j
  else r.byMethod setting j

end Rule

namespace Pass

/-- Whether a rule id has been seen. -/
def hasSeen (p : Pass) (id : String) : Bool := (lookup? id p.outcomes).isSome || p.ledger.has id

/-- Price a rule that applies. -/
def price (setting : Setting) (p : Pass) (r : Rule) (reason : String)
    (h : p.ledger.has r.id = false) : Except Halt Pass := do
  let raw ← r.raw setting p.ledger p.journal
  let value ← cents (Rule.clamp r.lowest r.highest raw.value)
  let changed :=
    if value.eq raw.value then []
    else [r.entry "Clamp/Round" (raw.value.brief ++ " → " ++ value.amount) none]
  let priced := r.entry "Price" (r.label ++ " (" ++ reason ++ ")") (some value.amount)
  return {
    ledger := p.ledger.push (r.price value) h
    outcomes := p.outcomes ++ [(r.id, raw.outcome)]
    journal := raw.journal.record (changed ++ [priced]) }

/-- Take the next rule. -/
def step (setting : Setting) (p : Pass) (r : Rule) : Except Halt Pass :=
  if h : p.hasSeen r.id then
    .ok { p with
      journal := (p.journal.warn ("Duplicate rule id '" ++ r.id ++ "' ignored")).record
        [r.entry "Skip" "duplicate rule id" none] }
  else do
    let verdict ← r.verdict setting.selection setting.answers
    if verdict.applies then
      p.price setting r verdict.reason (by simp [hasSeen] at h; exact h.2)
    else
      return { p with
        outcomes := p.outcomes ++ [(r.id, .skipped)]
        journal := p.journal.record [r.entry "Skip" verdict.reason none] }

/-- The pass over a catalog. -/
def run (setting : Setting) (rules : List Rule) : Except Halt Pass :=
  rules.foldlM (step setting) {}

/-- **A pass looks forward only:** what it does on a catalog it does on the first part of it. -/
theorem run_append (setting : Setting) (rules later : List Rule) :
    run setting (rules ++ later) =
      (run setting rules).bind fun p => later.foldlM (step setting) p := by
  unfold run
  rw [List.foldlM_append]
  rfl

end Pass
end Tariff
