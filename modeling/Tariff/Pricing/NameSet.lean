/-
# Sets of names

A set of texts is kept as the ascending list of its members, so that two sets with the same members
are equal and the listed order is the order of code points.
-/

namespace Tariff

/-- A finite set of texts, as its ascending list. -/
structure NameSet where
  names : List String
  ascending : names.Pairwise (· < ·)

namespace NameSet

instance : DecidableEq NameSet := fun a b =>
  if h : a.names = b.names then isTrue (by cases a; cases b; cases h; rfl)
  else isFalse fun e => h (e ▸ rfl)

def empty : NameSet := ⟨[], .nil⟩

instance : Inhabited NameSet := ⟨empty⟩

/-- Put a name at its place in an ascending list. -/
def insertName (x : String) : List String → List String
  | [] => [x]
  | y :: rest => if x < y then x :: y :: rest else if x = y then y :: rest else y :: insertName x rest

/-- Inserting a name adds it and takes nothing away. -/
theorem mem_insertName {x z : String} {ys : List String} :
    z ∈ insertName x ys ↔ z = x ∨ z ∈ ys := by
  induction ys with
  | nil => simp [insertName]
  | cons y rest ih =>
    unfold insertName
    split
    · simp
    · split
      · rename_i h
        subst h
        simp
      · simp only [List.mem_cons, ih]
        exact or_left_comm

/-- A list in ascending order without repetitions stays one; a name that is there already is not put in again.
-/
theorem pairwise_insertName {x : String} {ys : List String} (h : ys.Pairwise (· < ·)) :
    (insertName x ys).Pairwise (· < ·) := by
  induction ys with
  | nil => simp [insertName]
  | cons y rest ih =>
    obtain ⟨hy, hrest⟩ := List.pairwise_cons.1 h
    unfold insertName
    split
    · rename_i hlt
      refine List.pairwise_cons.2 ⟨fun z hz => ?_, h⟩
      rcases List.mem_cons.1 hz with rfl | hz
      · exact hlt
      · exact String.lt_trans hlt (hy z hz)
    · rename_i hnlt
      split
      · exact h
      · rename_i hne
        refine List.pairwise_cons.2 ⟨fun z hz => ?_, ih hrest⟩
        rcases mem_insertName.1 hz with rfl | hz
        · exact Decidable.byContradiction fun hnot =>
            hne (String.le_antisymm (String.not_lt.1 hnot) (String.not_lt.1 hnlt))
        · exact hy z hz

def insert (x : String) (s : NameSet) : NameSet :=
  ⟨insertName x s.names, pairwise_insertName s.ascending⟩

/-- The set of the members of a list. -/
def ofList (xs : List String) : NameSet := xs.foldr insert empty

def has (s : NameSet) (x : String) : Bool := s.names.contains x

/-- The set of a list has just the members of the list, however often each stood there. -/
theorem mem_names_ofList {x : String} {xs : List String} : x ∈ (ofList xs).names ↔ x ∈ xs := by
  induction xs with
  | nil => simp [ofList, empty]
  | cons y rest ih =>
    rw [List.mem_cons, ← ih]
    exact mem_insertName

/-- **A set holds what the list held.** Order and repetitions are lost in the list of its names, membership is
not. -/
theorem has_ofList {x : String} {xs : List String} : (ofList xs).has x = xs.contains x := by
  rw [has, Bool.eq_iff_iff, List.contains_iff_mem, List.contains_iff_mem, mem_names_ofList]

theorem has_empty (x : String) : empty.has x = false := rfl

/-- The names are in strictly ascending order, so none is there twice. -/
theorem nodup_names (s : NameSet) : s.names.Nodup := s.ascending.imp String.ne_of_lt

/-- A set of names is determined by its list: two lists in ascending order with the same members are equal. -/
theorem ext_names {s t : NameSet} : s.names = t.names ↔ s = t := by
  constructor
  · intro h
    cases s
    cases t
    cases h
    rfl
  · intro h
    rw [h]

/-- A name below all others is put at the front. -/
theorem insertName_of_lt {x : String} {ys : List String} (h : ∀ y ∈ ys, x < y) : insertName x ys = x :: ys := by
  cases ys with
  | nil => rfl
  | cons y rest => rw [insertName, if_pos (h y List.mem_cons_self)]

/-- An ascending list is the list of its set. -/
theorem names_ofList {xs : List String} (h : xs.Pairwise (· < ·)) : (ofList xs).names = xs := by
  induction xs with
  | nil => rfl
  | cons x rest ih =>
    obtain ⟨hx, hrest⟩ := List.pairwise_cons.1 h
    have hnames : (ofList (x :: rest)).names = insertName x (ofList rest).names := rfl
    rw [hnames, ih hrest, insertName_of_lt hx]

/-- **A set is the set of its names.** So a set can be written as a list and read again. -/
theorem ofList_names (s : NameSet) : ofList s.names = s := ext_names.1 (names_ofList s.ascending)

end NameSet
end Tariff
