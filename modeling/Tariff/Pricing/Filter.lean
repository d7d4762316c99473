/-
# Filters

A filter selects the prices that a service total adds up, by category and by billing frequency, and
sets a minimum for the total. It is written as a JSON object:

| key | other spelling | default |
| --- | --- | --- |
| `includeTypes` | `include_types` | `Base Service`, `Add-on` |
| `excludeTypes` | `exclude_types` | nothing |
| `includeBillingFrequencies` | `include_billing_frequencies` | `Monthly`, `One-Time Fee`, `Annual` |
| `excludeBillingFrequencies` | `exclude_billing_frequencies` | nothing |
| `minimumFee` | `minimum_fee` | `0` |

A key that is null counts as missing. The first spelling wins.
-/

import Tariff.Json
import Tariff.Number.Numeral
import Tariff.Pricing.Ledger
import Tariff.Pricing.NameSet

namespace Tariff

namespace Category

def baseService : String := "Base Service"
def addOn : String := "Add-on"
def discount : String := "Discount"

/-- The categories that are added up unless a filter says otherwise. -/
def counted : List String := [baseService, addOn]

/-- The categories with a meaning. -/
def known : List String := [baseService, addOn, discount]

end Category

namespace Billing

def monthly : String := "Monthly"
def oneTime : String := "One-Time Fee"
def annual : String := "Annual"

/-- The frequencies with a meaning. -/
def known : List String := [monthly, oneTime, annual]

end Billing

structure Filter where
  includeTypes : NameSet := .ofList Category.counted
  excludeTypes : NameSet := .empty
  includeBillings : NameSet := .ofList Billing.known
  excludeBillings : NameSet := .empty
  minimumFee : Binary64 := .zero
  deriving DecidableEq, Inhabited

/-- Why a JSON value is no filter. -/
inductive FilterFault where
  | notAnObject (v : Json)
  | notTexts (key : String) (v : Json)
  /-- The minimum fee is text that writes no number. -/
  | feeText
  /-- The minimum fee is a whole number beyond binary64. -/
  | feeTooLarge
  /-- The minimum fee is a container. -/
  | feeKind

namespace FilterFault

/-- The message about a value of the wrong kind; other faults have none of their own. -/
def message? : FilterFault → Option String
  | notAnObject v => some ("aggregation rules must be an object, got " ++ v.kindName)
  | notTexts key v => some (key ++ " must be a list of strings, got " ++ v.shown)
  | _ => none

end FilterFault

namespace Filter

/-- Membership of something that may be missing; what is missing is in no set. -/
def listed (s : NameSet) : Option String → Bool
  | some x => s.has x
  | none => false

/-- Whether a price is added up. -/
def accepts (f : Filter) (p : Price) : Bool :=
  listed f.includeTypes p.category && !listed f.excludeTypes p.category
    && listed f.includeBillings p.billing && !listed f.excludeBillings p.billing

/-- Only one of the included frequencies; nothing if it is not among them. -/
def narrowedTo (billing : String) (f : Filter) : Filter :=
  { f with
    includeBillings := if f.includeBillings.has billing then .ofList [billing] else .empty }

/-- The value under either spelling of a key, null counting as missing. -/
def pick (data : Json) (key other : String) : Option Json :=
  let present := fun (k : String) => match data.get? k with
    | some .null => none
    | v => v
  (present key).or (present other)

/-- The texts of a list that holds nothing else. -/
def texts? : List Json → Option (List String)
  | [] => some []
  | .text s :: rest => (texts? rest).map (s :: ·)
  | _ :: _ => none

def pickSet (data : Json) (key other : String) (default : NameSet) : Except FilterFault NameSet :=
  match pick data key other with
  | none => .ok default
  | some (.list items) =>
    match texts? items with
    | some xs => .ok (.ofList xs)
    | none => .error (.notTexts key (.list items))
  | some v => .error (.notTexts key v)

/-- A minimum fee; whatever is blank counts as zero. -/
def fee (v : Json) : Except FilterFault Binary64 :=
  if v.isBlankValue then .ok .zero
  else match v with
    | .bool _ => .ok .one
    | .int n => if (Binary64.ofInt n).isFinite then .ok (.ofInt n) else .error .feeTooLarge
    | .real x => .ok x
    | .text s =>
      match Binary64.parse? s with
      | some x => .ok x
      | none => .error .feeText
    | _ => .error .feeKind

/-- The filter that a JSON value writes; null writes the default one. -/
def ofJson (data : Json) : Except FilterFault Filter := do
  let data ← match data with
    | .null => .ok (.object [])
    | .object fields => .ok (.object fields)
    | v => .error (FilterFault.notAnObject v)
  let defaults : Filter := {}
  let includeTypes ← pickSet data "includeTypes" "include_types" defaults.includeTypes
  let excludeTypes ← pickSet data "excludeTypes" "exclude_types" .empty
  let includeBillings ← pickSet data "includeBillingFrequencies" "include_billing_frequencies"
    defaults.includeBillings
  let excludeBillings ← pickSet data "excludeBillingFrequencies" "exclude_billing_frequencies" .empty
  let minimumFee ← fee ((pick data "minimumFee" "minimum_fee").getD (.int 0))
  return ⟨includeTypes, excludeTypes, includeBillings, excludeBillings, minimumFee⟩

/-- The canonical object of a filter. -/
def toJson (f : Filter) : Json :=
  .object [
    ("includeTypes", .ofTexts f.includeTypes.names),
    ("excludeTypes", .ofTexts f.excludeTypes.names),
    ("includeBillingFrequencies", .ofTexts f.includeBillings.names),
    ("excludeBillingFrequencies", .ofTexts f.excludeBillings.names),
    ("minimumFee", .real f.minimumFee)]

/-- Equality of filters, fees compared as numbers and `nan` agreeing with itself. -/
def agrees (f g : Filter) : Bool :=
  f.includeTypes = g.includeTypes && f.excludeTypes = g.excludeTypes
    && f.includeBillings = g.includeBillings && f.excludeBillings = g.excludeBillings
    && (f.minimumFee = g.minimumFee || f.minimumFee.eq g.minimumFee)

end Filter
end Tariff
