/-
# White space around a text with placeholders

White space at the ends of a text is no part of any placeholder, so a text is cut into the same pieces
with it and without it (`exists_pieces_eq`) and has the same placeholders (`placeholders_trim`).
-/

import Tariff.Formula.Template
import Tariff.Proofs.Formula.Lexing

namespace Tariff

/-- A text is what is left of it without white space, between white space. -/
theorem exists_eq_trimChars (cs : List Char) : ∃ front back,
    cs = front ++ (trimChars cs ++ back) ∧ (∀ c ∈ front, isBlank c) ∧ ∀ c ∈ back, isBlank c := by
  refine ⟨cs.takeWhile isBlank, ((trimFront cs).reverse.takeWhile isBlank).reverse, ?_, ?_, ?_⟩
  · rw [trimChars, ← List.reverse_append]
    simp only [trimFront, List.takeWhile_append_dropWhile, List.reverse_reverse]
  · exact List.all_eq_true.1 List.all_takeWhile
  · intro c hc
    exact List.all_eq_true.1 List.all_takeWhile c (List.mem_reverse.1 hc)

namespace Formula

theorem ne_of_isBlank {c : Char} (h : isBlank c) : c ≠ '\x7b' ∧ c ≠ '\x7d' := by
  refine ⟨?_, ?_⟩ <;> (rintro rfl; revert h; decide)

/-- A placeholder begins with a brace. -/
theorem slotAt?_eq_none {c : Char} (h : c ≠ '\x7b') (cs : List Char) : slotAt? (c :: cs) = none := by
  unfold slotAt?
  split
  · rename_i heq
    exact absurd (List.cons.inj heq).1 h
  · rfl

/-- A placeholder begins with two braces. -/
theorem slotAt?_eq_none_of_second {d : Char} (h : d ≠ '\x7b') (c : Char) (cs : List Char) :
    slotAt? (c :: d :: cs) = none := by
  unfold slotAt?
  split
  · rename_i heq
    exact absurd (List.cons.inj (List.cons.inj heq).2).1 h
  · rfl

theorem slotAt?_singleton (c : Char) : slotAt? [c] = none := by
  unfold slotAt?
  split
  · rename_i heq
    simp at heq
  · rfl

/-- Behind two opening braces, without a closing one. -/
theorem slotAt?_open {inside : List Char} (h : ∀ c ∈ inside, c ≠ '\x7d') :
    slotAt? ('\x7b' :: '\x7b' :: inside) = none := by
  have hdrop : inside.dropWhile (· ≠ '\x7d') = [] := by
    simpa using @dropWhile_run _ (fun c => decide (c ≠ '\x7d')) inside [] (by simpa using h) (by simp)
  simp only [slotAt?, hdrop]

/-- Behind two opening braces, up to the first closing one. -/
theorem slotAt?_close {inside : List Char} (h : ∀ c ∈ inside, c ≠ '\x7d') (rest : List Char) :
    slotAt? ('\x7b' :: '\x7b' :: (inside ++ '\x7d' :: rest)) =
      if rest.head? = some '\x7d' ∧ inside ≠ [] then some (inside, rest.tail) else none := by
  have htake : (inside ++ '\x7d' :: rest).takeWhile (· ≠ '\x7d') = inside :=
    takeWhile_run (by simpa using h) (by simp)
  have hdrop : (inside ++ '\x7d' :: rest).dropWhile (· ≠ '\x7d') = '\x7d' :: rest :=
    dropWhile_run (by simpa using h) (by simp)
  simp only [slotAt?, htake, hdrop]
  split
  · rename_i rest' heq
    obtain rfl := (List.cons.inj heq).2
    cases inside <;> simp
  · rename_i hno
    have : rest.head? ≠ some '\x7d' := by
      intro hhead
      obtain ⟨rest', rfl⟩ := List.head?_eq_some_iff.1 hhead
      exact hno rest' rfl
    simp [this]

/-- A text runs up to its first closing brace, or has none. -/
theorem exists_inside (body : List Char) : ∃ inside, (∀ c ∈ inside, c ≠ '\x7d') ∧
    (body = inside ∨ ∃ rest, body = inside ++ '\x7d' :: rest) := by
  induction body with
  | nil => exact ⟨[], by simp, .inl rfl⟩
  | cons c body ih =>
    by_cases hc : c = '\x7d'
    · exact ⟨[], by simp, .inr ⟨body, by rw [hc]; rfl⟩⟩
    · obtain ⟨inside, hinside, rfl | ⟨rest, rfl⟩⟩ := ih
      · exact ⟨c :: body, by simpa [hc] using hinside, .inl rfl⟩
      · exact ⟨c :: inside, by simpa [hc] using hinside, .inr ⟨rest, rfl⟩⟩

/-- White space behind a text completes no placeholder. -/
theorem slotAt?_append_isBlank {back : List Char} (h : ∀ c ∈ back, isBlank c) (cs : List Char) :
    slotAt? (cs ++ back) = (slotAt? cs).map fun cut => (cut.1, cut.2 ++ back) := by
  have hopen : ∀ c ∈ back, c ≠ '\x7b' := fun c hc => (ne_of_isBlank (h c hc)).1
  match cs with
  | [] =>
    cases back with
    | nil => rfl
    | cons c back => exact slotAt?_eq_none (hopen c List.mem_cons_self) back
  | [c] =>
    rw [slotAt?_singleton]
    cases back with
    | nil => exact slotAt?_singleton c
    | cons d back => exact slotAt?_eq_none_of_second (hopen d List.mem_cons_self) c back
  | c :: d :: body =>
    by_cases hc : c = '\x7b'
    · by_cases hd : d = '\x7b'
      · subst hc hd
        -- White space has no braces, so the first closing brace is where it was, or there is still none.
        obtain ⟨inside, hinside, rfl | ⟨rest, rfl⟩⟩ := exists_inside body
        · rw [slotAt?_open hinside]
          refine slotAt?_open fun c hc => ?_
          exact (List.mem_append.1 hc).elim (hinside c) fun hc => (ne_of_isBlank (h c hc)).2
        · simp only [List.cons_append, List.append_assoc, slotAt?_close hinside]
          cases rest with
          | nil =>
            have hhead : back.head? ≠ some '\x7d' := fun hhead =>
              (ne_of_isBlank (h _ (List.mem_of_mem_head? hhead))).2 rfl
            simp [hhead]
          | cons e rest =>
            by_cases hclose : e = '\x7d' ∧ inside ≠ []
            · simp [hclose]
            · simp [hclose]
      · simp only [List.cons_append, slotAt?_eq_none_of_second hd, Option.map_none]
    · simp only [List.cons_append, slotAt?_eq_none hc, Option.map_none]

/-- Where no placeholder begins, the character is a piece. -/
theorem pieces_cons_char {c : Char} {rest : List Char} (h : slotAt? (c :: rest) = none) :
    pieces (c :: rest) = .char c :: pieces rest := by
  rw [pieces]
  split
  · rename_i hsome
    simp [h] at hsome
  · rfl

/-- A placeholder at the front is a piece, and cutting goes on behind it. -/
theorem pieces_cons_slot {c : Char} {rest inside after : List Char}
    (h : slotAt? (c :: rest) = some (inside, after)) :
    pieces (c :: rest) = .slot inside :: pieces after := by
  rw [pieces]
  split
  · rename_i hsome
    obtain ⟨rfl, rfl⟩ := Prod.mk.inj (Option.some.inj (h.symm.trans hsome))
    rfl
  · rename_i hnone
    simp [h] at hnone

/-- Where no brace opens, the text is cut into characters. -/
theorem pieces_append_of_ne {front : List Char} (h : ∀ c ∈ front, c ≠ '\x7b') (cs : List Char) :
    pieces (front ++ cs) = front.map .char ++ pieces cs := by
  induction front with
  | nil => rfl
  | cons c front ih =>
    rw [List.cons_append, pieces_cons_char (slotAt?_eq_none (h c List.mem_cons_self) _),
      ih fun c hc => h c (List.mem_cons_of_mem _ hc)]
    rfl

/-- White space at the end is cut into single characters, and changes nothing in front: it completes no
placeholder. -/
theorem pieces_append_isBlank {back : List Char} (h : ∀ c ∈ back, isBlank c) (cs : List Char) :
    pieces (cs ++ back) = pieces cs ++ back.map .char := by
  fun_induction pieces cs with
  | case1 =>
    have := pieces_append_of_ne (fun c hc => (ne_of_isBlank (h c hc)).1) []
    simpa [pieces] using this
  | case2 c rest inside after hslot _ ih =>
    have hslot' := slotAt?_append_isBlank h (c :: rest)
    rw [hslot, List.cons_append] at hslot'
    rw [List.cons_append, pieces_cons_slot hslot', ih]
    rfl
  | case3 c rest hslot ih =>
    have hslot' := slotAt?_append_isBlank h (c :: rest)
    rw [hslot, List.cons_append] at hslot'
    rw [List.cons_append, pieces_cons_char hslot', ih]
    rfl

/-- **Trimming takes white space from the pieces.** What is taken off at the ends are single characters: no
placeholder begins or ends with white space, though it may have some inside. -/
theorem exists_pieces_eq (cs : List Char) : ∃ front back : List Char,
    pieces cs = front.map .char ++ (pieces (trimChars cs) ++ back.map .char) ∧
      (∀ c ∈ front, isBlank c) ∧ ∀ c ∈ back, isBlank c := by
  obtain ⟨front, back, hcut, hfront, hback⟩ := exists_eq_trimChars cs
  refine ⟨front, back, ?_, hfront, hback⟩
  rw [← pieces_append_isBlank hback, ← pieces_append_of_ne fun c hc => (ne_of_isBlank (hfront c hc)).1, ← hcut]

theorem filterMap_name?_map_char (cs : List Char) : (cs.map Piece.char).filterMap Piece.name? = [] := by
  induction cs with
  | nil => rfl
  | cons c cs ih => exact ih

/-- **White space around a formula changes nothing about its placeholders.** So the check, which reads the
formula as it is written, and the pass, which trims it, look at the same names. -/
theorem placeholders_trim (source : String) : placeholders (trim source) = placeholders source := by
  obtain ⟨front, back, hcut, -, -⟩ := exists_pieces_eq source.toList
  rw [placeholders, placeholders, hcut, List.filterMap_append, List.filterMap_append, filterMap_name?_map_char,
    filterMap_name?_map_char, List.nil_append, List.append_nil, trim, String.toList_ofList]

end Formula
end Tariff
