/-
# Checking a rule

A rule is valid if nothing in it is an error; warnings point at what has no effect or hardly the one
intended. A formula is read with every placeholder at zero. Where the ids of the earlier rules are
given, references to other rules are reported, since those have no price yet when the rule is priced.
-/

import Tariff.Formula
import Tariff.Pricing.Filter
import Tariff.Pricing.Pass

namespace Tariff

/-- What a check found. -/
structure Findings where
  errors : List String
  warnings : List String
  placeholders : List String
  deriving DecidableEq, Repr

def Findings.isValid (f : Findings) : Bool := f.errors.isEmpty

namespace Check

/-- A message if a condition holds. -/
def note (condition : Bool) (message : String) : List String := if condition then [message] else []

/-- A message about a text that is there but not among those known. -/
def unlisted (known : List String) (text : Option String) (message : String → String) : List String :=
  match nonEmpty? text with
  | some s => note (!known.contains s) (message s)
  | none => []

def idErrors (r : Rule) : List String := note r.id.isEmpty "rule_id is required"

def methodErrors (r : Rule) : List String :=
  note (Method.ofName? r.method).isNone
    ("Invalid calculation_method '" ++ r.method ++ "', must be one of: "
      ++ ", ".intercalate (Method.all.map Method.name))

def metadataWarnings (r : Rule) : List String :=
  unlisted Category.known r.category
      (fun s => "Unknown pricing_type '" ++ s ++ "' is never aggregated by default")
    ++ unlisted Billing.known r.billing (fun s => "Unknown billing_frequency '" ++ s ++ "'")
    ++ note (nonEmpty? r.service).isNone
      "No service_id; the rule only counts through prefix matching"

def boundWarnings (r : Rule) : List String :=
  match r.lowest, r.highest with
  | some low, some high =>
    note (high.lt low) "minimum_value is greater than maximum_value; maximum wins"
  | _, _ => []

def operatorErrors (r : Rule) : List String :=
  unlisted (Operator.all.map Operator.name) r.operator
    fun s => "Unknown comparison_logic '" ++ s ++ "'"

def operatorWarnings (r : Rule) : List String :=
  note ((nonEmpty? r.operator).isSome && (nonEmpty? r.triggerField).isNone)
    "comparison_logic without trigger_field is ignored"

/-- The text of a formula with every placeholder at zero. -/
def atZero (formula : String) : String :=
  Formula.fill ((Formula.placeholders formula).map fun name => (name, .zero)) formula

def formulaErrors (formula : String) : List String :=
  let text := atZero formula
  match Formula.parse text with
  | .ok _ => []
  | .error fault => ["Invalid expression: " ++ fault.message text]

/-- The placeholders that refer to rules not among the earlier ones. -/
def forwardReferences (earlier : List String) (rulePrefix : String) (names : List String) :
    List String :=
  names.filter fun name =>
    match Sources.afterPrefix? rulePrefix name with
    | some id => !earlier.contains id
    | none => false

def forwardWarning (name : String) : String :=
  Sources.braced name ++ " is not evaluated before this rule and resolves to 0"

/-- What the way of calculating adds to the findings. -/
def methodFindings (r : Rule) (earlier : Option (List String)) (rulePrefix : String) : Findings :=
  match Method.ofName? r.method with
  | some .formula =>
    if r.formula.isEmpty then ⟨[], ["Empty expression always prices at 0"], []⟩
    else
      let names := Formula.placeholders r.formula
      let forward := match earlier with
        | some ids => forwardReferences ids rulePrefix names
        | none => []
      ⟨formulaErrors r.formula, forward.map forwardWarning, names⟩
  | some .perUnit =>
    ⟨[], note r.unitTerms?.isNone
      "per-unit rule without quantity_source_field/unit_price uses base_price", []⟩
  | _ => ⟨[], [], []⟩

end Check

open Check in
/-- Check a rule. -/
def Rule.check (r : Rule) (earlier : Option (List String)) (rulePrefix : String) : Findings :=
  let special := methodFindings r earlier rulePrefix
  { errors := idErrors r ++ methodErrors r ++ operatorErrors r ++ special.errors
    warnings := metadataWarnings r ++ boundWarnings r ++ operatorWarnings r ++ special.warnings
    placeholders := special.placeholders }

/-- Check rules in catalog order, each against the ids before it. -/
def checkAll (rulePrefix : String) (earlier : List String) : List Rule → List (Rule × Findings)
  | [] => []
  | r :: rest =>
    (r, r.check (some earlier) rulePrefix) :: checkAll rulePrefix (earlier ++ [r.id]) rest

end Tariff
