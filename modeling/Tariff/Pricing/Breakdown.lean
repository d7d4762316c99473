/-
# The breakdown of a quote by service

Each service with a price that counts gets a line: the sums of its prices by billing frequency, raised
to the minimum fees of its active catalog rows of that very frequency, and rounded to cents. A price
counts if it is not zero and its frequency is one of the three. Lines follow the service catalog, then
the order in which further services first have a price.
-/

import Tariff.Pricing.Total

namespace Tariff

/-- The billing frequencies that a quote has columns for. -/
inductive Frequency where
  | monthly | oneTime | annual
  deriving DecidableEq, Repr

namespace Frequency

def all : List Frequency := [monthly, oneTime, annual]

def name : Frequency → String
  | monthly => Billing.monthly
  | oneTime => Billing.oneTime
  | annual => Billing.annual

def ofName? (name : String) : Option Frequency := all.find? fun f => f.name = name

end Frequency

/-- An amount for each frequency. -/
structure Fees where
  monthly : Binary64 := .zero
  oneTime : Binary64 := .zero
  annual : Binary64 := .zero
  deriving DecidableEq, Inhabited

namespace Fees

def at_ (f : Fees) : Frequency → Binary64
  | .monthly => f.monthly
  | .oneTime => f.oneTime
  | .annual => f.annual

def set (f : Fees) (frequency : Frequency) (x : Binary64) : Fees :=
  match frequency with
  | .monthly => { f with monthly := x }
  | .oneTime => { f with oneTime := x }
  | .annual => { f with annual := x }

/-- Setting the fee of one frequency is seen at that frequency and at no other. -/
theorem at_set (f : Fees) (i j : Frequency) (x : Binary64) :
    (f.set i x).at_ j = if i = j then x else f.at_ j := by
  cases i <;> cases j <;> rfl

/-- What a year costs: twelve months, the single fees and the annual ones. -/
def year (f : Fees) : Binary64 := f.monthly * .ofNat 12 + f.oneTime + f.annual

def cents (f : Fees) : Except Halt Fees := do
  return ⟨← Tariff.cents f.monthly, ← Tariff.cents f.oneTime, ← Tariff.cents f.annual⟩

end Fees

/-- A line of a quote. -/
structure Line where
  service : String
  title : String
  fees : Fees
  /-- The rounded cost of a year. -/
  year : Binary64
  ruleIds : List String
  deriving DecidableEq, Inhabited

namespace Breakdown

/-- The services of a quote with their titles, in the order of their lines. -/
def services (rows : List Service) (prices : List Price) : List (String × String) :=
  let add := fun (seen : List (String × String)) (id title : String) =>
    if (lookup? id seen).isSome then seen else seen ++ [(id, title)]
  let listed := rows.foldl
    (fun seen row => add seen row.id (if row.title.isEmpty then row.id else row.title)) []
  (prices.filterMap fun p => nonEmpty? p.service).foldl (fun seen id => add seen id id) listed

/-- The frequency under which a price counts on the line of a service. -/
def column? (service : String) (p : Price) : Option Frequency :=
  if p.service = some service && !p.value.isZero then p.billing.bind Frequency.ofName? else none

/-- The prices that count on the line of a service. -/
def counted (service : String) (prices : List Price) : List Price :=
  prices.filter fun p => (column? service p).isSome

/-- The sum of the prices of a service under a frequency. -/
def sum (service : String) (prices : List Price) (frequency : Frequency) : Binary64 :=
  Binary64.sum ((prices.filter fun p => column? service p = some frequency).map Price.value)

/-- Raise a column to the minimum fee of a catalog row, if the row is active, has that frequency and
sets a minimum. -/
def raise (service : String) (acc : Fees × List Entry) (row : Service) : Fees × List Entry :=
  let minimum := row.effectiveFilter.minimumFee
  match row.billing.bind Frequency.ofName? with
  | some frequency =>
    if row.id = service && row.isActive && minimum.isPositive
        && (acc.1.at_ frequency).lt minimum then
      (acc.1.set frequency minimum,
        acc.2 ++ [Ledger.figure "Minimum Fee"
          (service ++ " " ++ frequency.name ++ " raised to minimum") minimum])
    else acc
  | none => acc

/-- The line of a service, if it has prices that count. -/
def line? (rows : List Service) (prices : List Price) (service title : String) :
    Except Halt (Option (Line × List Entry)) :=
  let counted := counted service prices
  if counted.isEmpty then .ok none
  else do
    let sums : Fees :=
      ⟨sum service prices .monthly, sum service prices .oneTime, sum service prices .annual⟩
    let (raised, entries) := rows.foldl (raise service) (sums, [])
    let fees ← raised.cents
    let year ← cents fees.year
    return some (⟨service, title, fees, year, counted.map Price.ruleId⟩, entries)

/-- The lines of services, with what to put into the journal. -/
def lines (rows : List Service) (prices : List Price) :
    List (String × String) → Except Halt (List Line × List Entry)
  | [] => .ok ([], [])
  | (service, title) :: rest => do
    let found ← line? rows prices service title
    let (more, entries) ← lines rows prices rest
    match found with
    | some (line, noted) => return (line :: more, noted ++ entries)
    | none => return (more, entries)

/-- All lines of a quote. -/
def ofPrices (rows : List Service) (prices : List Price) : Except Halt (List Line × List Entry) :=
  lines rows prices (services rows prices)

end Breakdown
end Tariff
