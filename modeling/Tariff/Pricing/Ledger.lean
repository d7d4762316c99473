/-
# The ledger of computed prices

The prices of one pass in the order in which they were computed, one for each rule id. Prices are only
ever added at the end, and adding needs the proof that the id is new, so ids stay unique.
-/

import Tariff.Pricing.Rule

namespace Tariff

/-- The price of a rule, with what later sums need to know of the rule. -/
structure Price where
  ruleId : String
  value : Binary64
  service : Option String := none
  category : Option String := none
  billing : Option String := none
  deriving DecidableEq, Inhabited

/-- The price of a rule at a value. -/
def Rule.price (r : Rule) (value : Binary64) : Price :=
  ⟨r.id, value, r.service, r.category, r.billing⟩

structure Ledger where
  prices : List Price
  unique : (prices.map Price.ruleId).Nodup

namespace Ledger

def empty : Ledger := ⟨[], List.nodup_nil⟩

instance : Inhabited Ledger := ⟨empty⟩

/-- Whether a rule has a price. -/
def has (l : Ledger) (id : String) : Bool := l.prices.any fun p => p.ruleId = id

/-- The price of a rule. -/
def find? (l : Ledger) (id : String) : Option Price := l.prices.find? fun p => p.ruleId = id

def size (l : Ledger) : Nat := l.prices.length

/-- Rule ids with their values. -/
def values (l : Ledger) : List (String × Binary64) := l.prices.map fun p => (p.ruleId, p.value)

/-- Whether some price says which service it belongs to. -/
def namesServices (l : Ledger) : Bool := l.prices.any fun p => p.service.isSome

/-- A ledger has a price of a rule just if the rule is among those of its prices, in the order of the passes. -/
theorem has_iff {l : Ledger} {id : String} : l.has id = true ↔ id ∈ l.prices.map Price.ruleId := by
  simp [has, List.mem_map]

/-- Add the price of a rule that has none. -/
def push (l : Ledger) (p : Price) (h : l.has p.ruleId = false) : Ledger :=
  ⟨l.prices ++ [p], by
    have hp : p.ruleId ∉ l.prices.map Price.ruleId := fun hm => by
      rw [has_iff.2 hm] at h
      simp at h
    rw [List.map_append, List.nodup_append]
    refine ⟨l.unique, by simp, fun a ha b hb => ?_⟩
    simp only [List.map_cons, List.map_nil, List.mem_singleton] at hb
    exact fun hab => hp (hb ▸ hab ▸ ha)⟩

/-- Add a price, if its rule has none. -/
def add? (l : Ledger) (p : Price) : Option Ledger :=
  if h : l.has p.ruleId = false then some (l.push p h) else none

/-- The ledger of a list of prices, or the first id that comes twice. -/
def ofList (ps : List Price) : Except String Ledger :=
  ps.foldlM (fun l p => match l.add? p with
    | some l => .ok l
    | none => .error p.ruleId) empty

/-- The message about an id that has a price already. -/
def duplicateMessage (id : String) : String := "Rule '" ++ id ++ "' already has a computed price"

/-- A new price goes behind all that were entered before it. -/
theorem prices_push (l : Ledger) (p : Price) (h : l.has p.ruleId = false) :
    (l.push p h).prices = l.prices ++ [p] := rfl

/-- A price just added is found, and all others are found as before. -/
theorem find?_push (l : Ledger) (p : Price) (h : l.has p.ruleId = false) (id : String) :
    (l.push p h).find? id = if p.ruleId = id then some p else l.find? id := by
  unfold find?
  rw [prices_push, List.find?_append]
  by_cases hid : p.ruleId = id
  · have hnone : l.prices.find? (fun q => q.ruleId = id) = none := by
      rw [List.find?_eq_none]
      intro q hq
      have : ¬ (l.has p.ruleId = true) := by simp [h]
      rw [has_iff] at this
      simp only [decide_eq_true_eq]
      exact fun hqid => this (List.mem_map.2 ⟨q, hq, hqid.trans hid.symm⟩)
    simp [hnone, hid]
  · simp [hid]

end Ledger
end Tariff
