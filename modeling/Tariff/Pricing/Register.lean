/-
# The register of computed prices

The ledger as it is kept for quick look-up: the prices in the order of their adding, and beside them an index by rule id.
Both are written when a price is added, one after the other, and each is read for itself.

| read from the entries | read from the index |
| --- | --- |
| the prices in order, their number, their values | the price of a rule, whether it has one |
-/

import Tariff.Json
import Tariff.Pricing.Ledger

namespace Tariff

structure Register where
  entries : List Price := []
  index : List (String × Price) := []
  deriving DecidableEq, Inhabited

namespace Register

/-- Whether a rule has a price. -/
def has (r : Register) (id : String) : Bool := (lookup? id r.index).isSome

/-- The price of a rule. -/
def find? (r : Register) (id : String) : Option Price := lookup? id r.index

def size (r : Register) : Nat := r.entries.length

/-- Rule ids with their values. An id that came again would keep its place and take the later value. -/
def values (r : Register) : List (String × Binary64) :=
  r.entries.foldl (fun values p => assign p.ruleId p.value values) []

/-- Whether some price says which service it belongs to. -/
def namesServices (r : Register) : Bool := r.entries.any fun p => p.service.isSome

/-- Add a price to the entries and then to the index, or fail with a message. A failure keeps what has been written. -/
def add (p : Price) : EStateM String Register Unit := do
  if (← get).has p.ruleId then
    throw (Ledger.duplicateMessage p.ruleId)
  modify fun r => { r with entries := r.entries ++ [p] }
  modify fun r => { r with index := assign p.ruleId p r.index }

/-- The register of a list of prices, or the message about the first id that comes twice. -/
def ofList (ps : List Price) : Except String Register :=
  ps.foldlM (fun r p => match add p r with
    | .ok _ r => .ok r
    | .error message _ => .error message) {}

/-- Try to add one price after another, going on where it fails: the prices that were added, and the register then. -/
def tryAll : List Price → Register → List Price × Register
  | [], r => ([], r)
  | p :: ps, r =>
    match add p r with
    | .ok _ r => (tryAll ps r).map (p :: ·) id
    | .error _ r => tryAll ps r

/-- A second price of the same rule is refused by a message that names the rule, and the register stays as it
was. -/
theorem add_of_has {r : Register} {p : Price} (h : r.has p.ruleId = true) :
    add p r = .error (Ledger.duplicateMessage p.ruleId) r := by
  change (ite (r.has p.ruleId = true) _ _ : EStateM String Register Unit) r = _
  rw [if_pos h]
  rfl

/-- The price of a new rule goes to the end of the list and into the index, under its rule. -/
theorem add_of_has_eq_false {r : Register} {p : Price} (h : r.has p.ruleId = false) :
    add p r = .ok () ⟨r.entries ++ [p], assign p.ruleId p r.index⟩ := by
  change (ite (r.has p.ruleId = true) _ _ : EStateM String Register Unit) r = _
  rw [if_neg (by simp [h])]
  rfl

end Register
end Tariff
