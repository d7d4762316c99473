/-
# Names and what they stand for

Looking a name up in a list of entries finds something just if some entry has that name, and an entry written under a new
name comes behind the others. The members of a list at their first places are its members, each once. The name of a
placeholder has no white space at its ends. A name that is given is not empty.
-/

import Tariff.Formula.Template
import Tariff.Pricing.Rule
import Tariff.Proofs.Text

namespace Tariff

/-- A name that is given is there and not empty. -/
theorem nonEmpty?_eq_some_iff {x : Option String} {s : String} :
    nonEmpty? x = some s ↔ x = some s ∧ s ≠ "" := by
  cases x with
  | none => simp [nonEmpty?]
  | some t =>
    simp only [nonEmpty?, String.isEmpty_iff, Option.some.injEq]
    split
    · rename_i hempty
      exact ⟨nofun, fun ⟨hs, hne⟩ => absurd (hs.symm.trans hempty) hne⟩
    · rename_i hsome
      rw [Option.some.injEq]
      exact ⟨fun hs => ⟨hs, hs ▸ hsome⟩, And.left⟩

/-- Looking a name up finds something just if some entry has that name. -/
theorem isSome_lookup? {α : Type} {key : String} {fields : List (String × α)} :
    (lookup? key fields).isSome ↔ key ∈ fields.map Prod.fst := by
  induction fields with
  | nil => simp [lookup?]
  | cons field fields ih =>
    rw [lookup?, List.map_cons, List.mem_cons, ← ih]
    split
    · rename_i heq
      simp [heq]
    · rename_i hne
      simp [Ne.symm hne]

/-- Where all entries have one value, every name among them has it. -/
theorem lookup?_map_of_mem {α : Type} {name : String} {names : List String} (h : name ∈ names) (x : α) :
    lookup? name (names.map fun name => (name, x)) = some x := by
  induction names with
  | nil => simp at h
  | cons other names ih =>
    rw [List.map_cons, lookup?]
    split
    · rfl
    · rename_i hne
      exact ih ((List.mem_cons.1 h).resolve_left fun heq => hne heq.symm)

/-- Entries in front go before those behind. -/
theorem lookup?_append {α : Type} (key : String) (fields more : List (String × α)) :
    lookup? key (fields ++ more) = (lookup? key fields).or (lookup? key more) := by
  induction fields with
  | nil => rfl
  | cons field fields ih =>
    rw [List.cons_append, lookup?, lookup?, ih]
    split
    · rfl
    · rfl

/-- A new key comes behind all others. -/
theorem assign_of_notMem {α : Type} {key : String} {fields : List (String × α)} (h : key ∉ fields.map Prod.fst)
    (value : α) : assign key value fields = fields ++ [(key, value)] := by
  induction fields with
  | nil => rfl
  | cons field fields ih =>
    rw [List.map_cons, List.mem_cons, not_or] at h
    rw [assign, if_neg (Ne.symm h.1), ih h.2, List.cons_append]

/-- Written one after another, entries with different keys come in that order. -/
theorem foldl_assign_of_nodup {α β : Type} {key : β → String} (value : β → α) {items : List β} :
    ∀ {fields : List (String × α)}, (fields.map Prod.fst ++ items.map key).Nodup →
      items.foldl (fun fields item => assign (key item) (value item) fields) fields =
        fields ++ items.map fun item => (key item, value item) := by
  induction items with
  | nil => simp
  | cons item items ih =>
    intro fields h
    have hnew : key item ∉ fields.map Prod.fst := fun hmem =>
      (List.nodup_append.1 h).2.2 _ hmem _ List.mem_cons_self rfl
    rw [List.foldl_cons, assign_of_notMem hnew, ih (by simpa using h)]
    simp

/-- Entries under keys of their own are found as in the list. -/
theorem lookup?_map_key {β : Type} (key : β → String) (name : String) (items : List β) :
    lookup? name (items.map fun item => (key item, item)) = items.find? fun item => key item = name := by
  induction items with
  | nil => rfl
  | cons item items ih =>
    rw [List.map_cons, lookup?, List.find?_cons, ih]
    by_cases h : key item = name
    · simp [h]
    · simp [h]

namespace Formula

theorem firsts_concat (xs : List String) (x : String) :
    firsts (xs ++ [x]) = if (firsts xs).contains x then firsts xs else firsts xs ++ [x] := by
  rw [firsts, List.foldl_append]
  rfl

/-- The members at their first places are all members. -/
theorem mem_firsts {x : String} (xs : List String) : x ∈ firsts xs ↔ x ∈ xs := by
  have hfold : ∀ (xs seen : List String),
      x ∈ xs.foldl (fun seen x => if seen.contains x then seen else seen ++ [x]) seen ↔
        x ∈ seen ∨ x ∈ xs := by
    intro xs
    induction xs with
    | nil => simp
    | cons y ys ih =>
      intro seen
      rw [List.foldl_cons, ih, List.mem_cons]
      split
      · rename_i hy
        have hy : y ∈ seen := by simpa using hy
        constructor
        · exact fun h => h.imp_right .inr
        · rintro (h | rfl | h)
          · exact .inl h
          · exact .inl hy
          · exact .inr h
      · rw [List.mem_append, List.mem_singleton, or_assoc]
  rw [firsts, hfold]
  simp

theorem nodup_firsts (xs : List String) : (firsts xs).Nodup := by
  have hfold : ∀ xs seen : List String, seen.Nodup →
      (xs.foldl (fun seen x => if seen.contains x then seen else seen ++ [x]) seen).Nodup := by
    intro xs
    induction xs with
    | nil => exact fun _ hseen => hseen
    | cons x xs ih =>
      intro seen hseen
      refine ih _ ?_
      dsimp only
      split
      · exact hseen
      · rename_i hx
        have hx : x ∉ seen := by simpa using hx
        exact List.nodup_append.2 ⟨hseen, by simp, fun y hy z hz hyz => by
          rw [List.mem_singleton.1 hz] at hyz
          exact hx (hyz ▸ hy)⟩
  exact hfold xs [] List.nodup_nil

/-- The names of placeholders are trimmed. -/
theorem trim_of_mem_placeholders {source name : String} (h : name ∈ placeholders source) :
    trim name = name := by
  rw [placeholders, mem_firsts, List.mem_filterMap] at h
  obtain ⟨piece, -, hname⟩ := h
  cases piece with
  | char c => simp [Piece.name?] at hname
  | slot inside =>
    obtain rfl : String.ofList (trimChars inside) = name := Option.some.inj hname
    rw [trim, String.toList_ofList, trimChars_trimChars]

end Formula
end Tariff
