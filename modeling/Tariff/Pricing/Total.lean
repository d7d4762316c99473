/-
# Totals over the ledger

A service total adds up the prices of a service that a filter accepts, in ledger order, is rounded to
cents and raised to the filter's minimum fee. As long as no price in the ledger names a service, the
rules whose ids begin with the service id are added up instead, whatever the filter says.

The recurring rate adds up the positive prices of the rules with a tag in their ids; without any it
is a fixed fallback.
-/

import Tariff.Answers
import Tariff.Pricing.Journal
import Tariff.Pricing.Service

namespace Tariff

/-- Rounding to cents, which an infinity and an amount of too many digits stop. -/
def cents (x : Binary64) : Except Halt Binary64 :=
  match x.roundMoney with
  | some y => .ok y
  | none => .error (.unroundable x)

namespace Ledger

/-- The prices that a service total adds up. -/
def counted (l : Ledger) (service : String) (f : Filter) : List Price :=
  if l.namesServices then l.prices.filter fun p => p.service = some service && f.accepts p
  else l.prices.filter fun p => service.toList.isPrefixOf p.ruleId.toList

/-- A figure for the journal. -/
def figure (step description : String) (x : Binary64) : Entry := ⟨step, description, some x.amount, none⟩

/-- The total of a service under a filter, with what to put into the journal. -/
def serviceTotal (l : Ledger) (service : String) (f : Filter) :
    Except Halt (Binary64 × List Entry) := do
  let counted := l.counted service f
  let total ← cents (Binary64.sum (counted.map Price.value))
  let mode := if l.namesServices then "metadata" else "prefix fallback"
  let ids := if counted.isEmpty then "" else
    " (" ++ ", ".intercalate (counted.map Price.ruleId) ++ ")"
  let summed := figure "Aggregate"
    (service ++ ": " ++ natText counted.length ++ " matched rule(s) via " ++ mode ++ ids) total
  if f.minimumFee.isPositive && total.lt f.minimumFee then
    let raised := figure "Minimum Fee"
      (service ++ ": raised " ++ total.amount ++ " to minimum") f.minimumFee
    return (f.minimumFee, [summed, raised])
  else return (total, [summed])

/-- The prices that the recurring rate adds up. -/
def tagged (l : Ledger) (tag : String) : List Price :=
  l.prices.filter fun p => isInside tag.toList p.ruleId.toList && p.value.isPositive

/-- The recurring rate, with what to put into the journal. -/
def recurringRate (l : Ledger) (tag : String) (fallback : Binary64) :
    Except Halt (Binary64 × List Entry) := do
  let total := Binary64.sum ((l.tagged tag).map Price.value)
  if total.isPositive then
    let rate ← cents total
    return (rate, [figure "Recurring Rate" ("Sum of '" ++ tag ++ "' rule outputs") rate])
  else
    return (fallback,
      [figure "Recurring Rate" ("No '" ++ tag ++ "' charges found, using fallback") fallback])

end Ledger
end Tariff
