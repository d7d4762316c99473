/-
# Values up to the order of fields

Sorting the fields of an object by their keys keeps them all (`Json.perm_sortFields`) and looks at nothing but keys
(`Json.sortFields_map`). Done throughout a value it gives the value in order, `Json.ordered`. Two objects with the
same different keys in the same sequence, as records of one kind are, are the same just if they are the same in order
(`Json.eq_of_sortFields_eq`).
-/

import Tariff.Json.Canonical

namespace Tariff
namespace Json

/-! ### Sorted fields -/

section

variable {α β : Type}

/-- Inserting a field keeps it and all the others. -/
theorem perm_insertSorted (p : String × α) (fields : List (String × α)) :
    (insertSorted p fields).Perm (p :: fields) := by
  induction fields with
  | nil => exact .refl _
  | cons q rest ih =>
    rw [insertSorted]
    split
    · exact .refl _
    · exact (ih.cons q).trans (.swap p q rest)

/-- **Sorting keeps all fields**, with those of one key, too. -/
theorem perm_sortFields (fields : List (String × α)) : (sortFields fields).Perm fields := by
  have hfold (sorted : List (String × α)) :
      (fields.foldl (fun sorted p => insertSorted p sorted) sorted).Perm (fields ++ sorted) := by
    induction fields generalizing sorted with
    | nil => exact .refl _
    | cons p rest ih =>
      have hinsert := (perm_insertSorted p sorted).append_left rest
      exact (ih (insertSorted p sorted)).trans (hinsert.trans List.perm_middle)
  simpa [sortFields] using hfold []

/-- Fields are sorted by their keys alone. -/
theorem insertSorted_map (f : String × α → β) (p : String × α) (fields : List (String × α)) :
    insertSorted (p.1, f p) (fields.map fun q => (q.1, f q)) = (insertSorted p fields).map fun q => (q.1, f q) := by
  induction fields with
  | nil => rfl
  | cons q rest ih =>
    rw [List.map_cons, insertSorted, insertSorted]
    split
    · rfl
    · rw [List.map_cons, ih]

/-- Sorting looks at keys only, so values can be changed before it or after. -/
theorem sortFields_map (f : String × α → β) (fields : List (String × α)) :
    sortFields (fields.map fun q => (q.1, f q)) = (sortFields fields).map fun q => (q.1, f q) := by
  have hfold (sorted : List (String × α)) :
      (fields.map fun q => (q.1, f q)).foldl (fun sorted p => insertSorted p sorted)
          (sorted.map fun q => (q.1, f q)) =
        (fields.foldl (fun sorted p => insertSorted p sorted) sorted).map fun q => (q.1, f q) := by
    induction fields generalizing sorted with
    | nil => rfl
    | cons p rest ih =>
      rw [List.map_cons, List.foldl_cons, List.foldl_cons, insertSorted_map, ih]
  exact hfold []

/-- Lists of fields with the same different keys have the same fields only if they are the same. -/
theorem eq_of_perm_of_keys {fields fields' : List (String × α)}
    (hkeys : fields.map Prod.fst = fields'.map Prod.fst) (hnodup : (fields.map Prod.fst).Nodup)
    (h : fields.Perm fields') : fields = fields' := by
  induction fields generalizing fields' with
  | nil => exact h.nil_eq
  | cons p rest ih =>
    cases fields' with
    | nil => simp at hkeys
    | cons q rest' =>
      obtain ⟨hkey, hrest⟩ := List.cons.inj hkeys
      obtain ⟨hnotMem, hnodup⟩ := List.nodup_cons.1 hnodup
      obtain rfl : p = q := by
        rcases List.mem_cons.1 (h.subset List.mem_cons_self) with heq | hmem
        · exact heq
        · exact absurd (hrest ▸ List.mem_map_of_mem hmem) hnotMem
      rw [ih hrest hnodup h.cons_inv]

/-- **Objects with the same different keys are the same if they are when sorted**, since under each key stands
one value. -/
theorem eq_of_sortFields_eq {fields fields' : List (String × α)}
    (hkeys : fields.map Prod.fst = fields'.map Prod.fst) (hnodup : (fields.map Prod.fst).Nodup)
    (h : sortFields fields = sortFields fields') : fields = fields' :=
  eq_of_perm_of_keys hkeys hnodup ((perm_sortFields fields).symm.trans (h ▸ perm_sortFields fields'))

end

/-! ### Values in order -/

mutual

/-- A value with the fields of each object in the order of their keys. -/
def ordered : Json → Json
  | list items => list (orderedItems items)
  | object fields => object (sortFields (orderedFields fields))
  | v => v

def orderedItems : List Json → List Json
  | [] => []
  | x :: rest => ordered x :: orderedItems rest

def orderedFields : List (String × Json) → List (String × Json)
  | [] => []
  | (k, x) :: rest => (k, ordered x) :: orderedFields rest

end

theorem orderedItems_eq_map (items : List Json) : orderedItems items = items.map ordered := by
  induction items with
  | nil => rw [orderedItems, List.map_nil]
  | cons x rest ih => rw [orderedItems, ih, List.map_cons]

theorem orderedFields_eq_map (fields : List (String × Json)) :
    orderedFields fields = fields.map fun p => (p.1, p.2.ordered) := by
  induction fields with
  | nil => rw [orderedFields, List.map_nil]
  | cons p rest ih => rw [orderedFields, ih, List.map_cons]

theorem ordered_list (items : List Json) : (list items).ordered = list (items.map ordered) := by
  rw [ordered, orderedItems_eq_map]

/-- An object is sorted by keys, with its values ordered. -/
theorem ordered_object (fields : List (String × Json)) :
    (object fields).ordered = object ((sortFields fields).map fun p => (p.1, p.2.ordered)) := by
  rw [ordered, orderedFields_eq_map, sortFields_map]

/-- Neither text nor container. -/
def isScalar : Json → Bool
  | null => true
  | bool _ => true
  | int _ => true
  | real _ => true
  | _ => false

theorem ordered_of_isScalar {v : Json} (h : v.isScalar) : v.ordered = v := by
  cases v <;> simp_all [isScalar, ordered]

/-- Induction over values: scalars, texts, and containers after what they hold. -/
@[elab_as_elim]
theorem induction {motive : Json → Prop} (scalar : ∀ v, v.isScalar → motive v) (text : ∀ s, motive (.text s))
    (list : ∀ items, (∀ x ∈ items, motive x) → motive (.list items))
    (object : ∀ fields, (∀ p ∈ fields, motive p.2) → motive (.object fields)) : ∀ v, motive v
  | .null => scalar _ rfl
  | .bool _ => scalar _ rfl
  | .int _ => scalar _ rfl
  | .real _ => scalar _ rfl
  | .text s => text s
  | .list items => list items fun x _ => induction scalar text list object x
  | .object fields => object fields fun p _ => induction scalar text list object p.2
termination_by v => sizeOf v
decreasing_by
  · have := List.sizeOf_lt_of_mem ‹x ∈ items›
    simp only [Json.list.sizeOf_spec]
    omega
  · have := List.sizeOf_lt_of_mem ‹p ∈ fields›
    have : sizeOf p.2 < sizeOf p := by
      obtain ⟨k, x⟩ := p
      simp only [Prod.mk.sizeOf_spec]
      omega
    simp only [Json.object.sizeOf_spec]
    omega

end Json
end Tariff
