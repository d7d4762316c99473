/-
# Terms

The words with a special meaning in formulas, and what a discount hangs on.
-/

import Tariff.Number.Arithmetic

namespace Tariff

structure Terms where
  /-- A name that begins so refers to the price of an earlier rule. -/
  rulePrefix : String := "pricingRule."
  /-- The name of the recurring rate. -/
  rateName : String := "monthlyBookkeepingRate"
  /-- The recurring rate adds up the rules with this in their ids. -/
  rateTag : String := "bookkeeping"
  /-- The recurring rate if no such rule has a price. -/
  rateFallback : Binary64 := .ofNat 105
  /-- Selecting this service discounts the rules that can be discounted. -/
  discountService : String := "advisory"
  deriving DecidableEq, Inhabited

end Tariff
