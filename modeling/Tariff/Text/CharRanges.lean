/-
# Sets of characters as ranges

A character property is a list of closed ranges of code points in ascending order; membership stops
at the first range that begins beyond the character.
-/

namespace Tariff

/-- Closed ranges of code points, ascending. -/
abbrev CharRanges := List (Nat × Nat)

def CharRanges.holds : CharRanges → Nat → Bool
  | [], _ => false
  | (lo, hi) :: rest, n => if n < lo then false else n ≤ hi || CharRanges.holds rest n

def CharRanges.has (ranges : CharRanges) (c : Char) : Bool := ranges.holds c.toNat

end Tariff
