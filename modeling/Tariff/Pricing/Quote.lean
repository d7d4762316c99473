/-
# Quotes

A quote takes one pass over the rules. From its ledger come the named totals of the active service
rows, the breakdown by service and the sums over its lines. Its journal continues that of the pass.
-/

import Tariff.Pricing.Breakdown
import Tariff.Pricing.Pass

namespace Tariff

structure Quote where
  /-- The named totals, in catalog order. -/
  totals : List (String × Binary64)
  lines : List Line
  /-- The rounded sums of the lines. -/
  fees : Fees
  /-- The rounded cost of a year. -/
  year : Binary64
  prices : List Price
  journal : Journal

/-- What is needed besides the answers to price them. -/
structure Catalog where
  rules : List Rule
  services : List Service
  deriving DecidableEq, Inhabited

namespace Quote

/-- The names of the totals that a quote reports. -/
def reported (rows : List Service) : List String :=
  (rows.filter Service.isActive).filterMap fun row => nonEmpty? row.total

/-- Resolve the reported names; a name that comes again replaces its value in place. -/
def resolveTotals (sources : Sources) :
    List String → List (String × Binary64) → Journal → Except Halt (List (String × Binary64) × Journal)
  | [], totals, j => .ok (totals, j)
  | name :: rest, totals, j => do
    let (x, j) ← sources.resolve name none j
    resolveTotals sources rest (assign name x totals) j

/-- Whether any total is other than zero. -/
def hasPricing (totals : List (String × Binary64)) (fees : Fees) : Bool :=
  (totals.map Prod.snd ++ [fees.monthly, fees.oneTime, fees.annual]).any fun x => !x.isZero

/-- The quote on a finished pass. -/
def ofPass (setting : Setting) (pass : Pass) : Except Halt Quote := do
  let rows := setting.services
  let prices := pass.ledger.prices
  let (totals, j) ← resolveTotals ⟨setting.answers, pass.ledger, rows, setting.terms⟩
    (reported rows) [] pass.journal
  let (lines, noted) ← Breakdown.ofPrices rows prices
  let column := fun (frequency : Frequency) =>
    cents (Binary64.carefulSum (lines.map fun line => line.fees.at_ frequency))
  let fees : Fees := ⟨← column .monthly, ← column .oneTime, ← column .annual⟩
  let year ← cents fees.year
  let j := j.record (noted ++
    [Ledger.figure "Total" "Monthly fees" fees.monthly, Ledger.figure "Total" "Annualised" year])
  let j := if hasPricing totals fees then j
    else j.warn "No pricing rules produced a non-zero total"
  return ⟨totals, lines, fees, year, prices, j⟩

/-- The answers that are priced: what is blank counts as an empty object. -/
def givenAnswers (answers : Json) : Json := if answers.isBlankValue then .object [] else answers

/-- Price answers by a catalog. -/
def calculate (catalog : Catalog) (terms : Terms) (answers : Json) (selection : Selection) :
    Except Halt Quote := do
  let setting : Setting := ⟨givenAnswers answers, catalog.services, selection, terms⟩
  ofPass setting (← Pass.run setting catalog.rules)

/-! ### As JSON -/

def lineJson (line : Line) : Json :=
  .object [
    ("serviceId", .text line.service),
    ("title", .text line.title),
    ("monthlyFee", .real line.fees.monthly),
    ("oneTimeFee", .real line.fees.oneTime),
    ("annualFee", .real line.fees.annual),
    ("annualPrice", .real line.year),
    ("ruleIds", .ofTexts line.ruleIds)]

def priceJson (p : Price) : Json :=
  .object [
    ("ruleId", .text p.ruleId),
    ("value", .real p.value),
    ("serviceId", .ofText? p.service),
    ("pricingType", .ofText? p.category),
    ("billingFrequency", .ofText? p.billing)]

/-- A quote as an object, without the fingerprint of its catalog. -/
def toJson (q : Quote) : Json :=
  .object [
    ("totals", .object (q.totals.map fun (name, x) => (name, .real x))),
    ("totalMonthlyFees", .real q.fees.monthly),
    ("totalOneTimeFees", .real q.fees.oneTime),
    ("totalAnnualFees", .real q.fees.annual),
    ("totalAnnual", .real q.year),
    ("services", .list (q.lines.map lineJson)),
    ("prices", .list (q.prices.map priceJson)),
    ("warnings", .ofTexts q.journal.warnings)]

end Quote
end Tariff
