/-
# Services

A row of the service catalog gives a total of one service a name, under which formulas and quotes
refer to it. A service may have several rows, for instance one for each billing frequency.
-/

import Tariff.Pricing.Filter

namespace Tariff

structure Service where
  id : String
  /-- The name of the total. -/
  total : Option String := none
  billing : Option String := none
  filter : Option Filter := none
  title : String := ""
  displayName : Option String := none
  order : Int := 999
  isActive : Bool := true
  deriving DecidableEq, Inhabited

namespace Service

/-- The filter of the total: that of the row or the default one, and of the row's frequency only if
it has one. -/
def effectiveFilter (s : Service) : Filter :=
  let base := s.filter.getD {}
  match nonEmpty? s.billing with
  | some billing => base.narrowedTo billing
  | none => base

end Service
end Tariff
