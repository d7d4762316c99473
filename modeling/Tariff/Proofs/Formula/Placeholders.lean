/-
# Placeholders of a filled text

A text is filled part by part, and the result is one text again, which may be cut into parts anew. It then falls into
just the parts that were put together (`pieces_fill`): the characters of the literals, and the placeholders without a
value.

| text | values | filled | placeholders left |
| --- | --- | --- | --- |
| `{{a}} + {{b}}` | `a` | `5.0 + {{b}}` | `b` |
| `{{a}{{b}}}` | `b` | `{{a}5.0}` | |
| `{{{{a}}}}` | `a` | `{{{{a}}}}` | `{{a` |

A brace of the text that belongs to no placeholder might be thought to find a partner once a literal stands in the
place of one. It does not: from two opening braces on, the first closing brace decides, and a literal has none.
-/

import Tariff.Proofs.Formula.Filling
import Tariff.Proofs.Formula.Trimming
import Mathlib.Data.List.Induction

namespace Tariff

/-! ### Literals -/

/-- A literal is not empty and has no braces. -/
theorem Binary64.exists_literal_eq_cons (x : Binary64) : ∃ c cs, x.literal.toList = c :: cs ∧
    ∀ d ∈ c :: cs, d ≠ '\x7b' ∧ d ≠ '\x7d' := by
  have hword {cs : List Char} (h : cs ≠ [] ∧ cs.all fun d => d != '\x7b' && d != '\x7d') :
      cs ≠ [] ∧ ∀ d ∈ cs, d ≠ '\x7b' ∧ d ≠ '\x7d' := by
    simpa only [List.all_eq_true, Bool.and_eq_true, bne_iff_ne] using h
  have hall : x.literal.toList ≠ [] ∧ ∀ d ∈ x.literal.toList, d ≠ '\x7b' ∧ d ≠ '\x7d' := by
    match x with
    | .finite s m =>
      rw [toList_literal_eq_signText]
      have hm := m.literal_positional
      have hdigits : ∀ d ∈ m.literal, d ≠ '\x7b' ∧ d ≠ '\x7d' := by
        intro d hd
        rcases hm.mem hd with hdigit | rfl
        · refine ⟨?_, ?_⟩ <;> (rintro rfl; revert hdigit; decide)
        · decide
      cases s with
      | false => exact ⟨hm.ne_nil, hdigits⟩
      | true => exact ⟨List.cons_ne_nil _ _, List.forall_mem_cons.2 ⟨by decide, hdigits⟩⟩
    | .infinite false => exact @hword "Infinity".toList (by decide)
    | .infinite true => exact @hword "-Infinity".toList (by decide)
    | .nan => exact @hword "NaN".toList (by decide)
  obtain ⟨c, cs, hcs⟩ := List.exists_cons_of_ne_nil hall.1
  exact ⟨c, cs, hcs, hcs ▸ hall.2⟩

namespace Formula

variable {values : List (String × Binary64)}

/-! ### Parts that are put together -/

/-- The parts that a part becomes: the characters of its literal, or itself if it has no value. -/
def Piece.filled (values : List (String × Binary64)) (piece : Piece) : List Piece :=
  match piece.name?.bind (lookup? · values) with
  | some x => x.literal.toList.map .char
  | none => [piece]

/-- A placeholder has a value or stays. -/
theorem Piece.filled_slot (values : List (String × Binary64)) (inside : List Char) :
    (∃ x, lookup? (String.ofList (trimChars inside)) values = some x ∧
        (slot inside).fill values = x.literal.toList ∧
        (slot inside).filled values = x.literal.toList.map .char) ∨
      lookup? (String.ofList (trimChars inside)) values = none ∧
        (slot inside).fill values = (slot inside).chars ∧ (slot inside).filled values = [slot inside] := by
  cases h : lookup? (String.ofList (trimChars inside)) values with
  | some x => exact .inl ⟨x, rfl, by simp [fill, name?, h], by simp [filled, name?, h]⟩
  | none => exact .inr ⟨rfl, by simp [fill, name?, h], by simp [filled, name?, h]⟩

theorem Piece.fill_char (c : Char) : (char c).fill values = [c] := rfl

theorem Piece.filled_char (c : Char) : (char c).filled values = [char c] := rfl

/-- What stands inside a placeholder is not empty and has no closing brace. -/
theorem inside_of_slotAt? {cs inside after : List Char} (h : slotAt? cs = some (inside, after)) :
    inside ≠ [] ∧ ∀ c ∈ inside, c ≠ '\x7d' := by
  unfold slotAt? at h
  split at h
  · dsimp only at h
    split at h
    · split at h
      · simp at h
      · rename_i hne
        obtain ⟨rfl, -⟩ := Prod.mk.inj (Option.some.inj h)
        exact ⟨by simpa using hne, fun c hc => by
          simpa using List.all_eq_true.1 List.all_takeWhile c hc⟩
    · simp at h
  · simp at h

/-- Two opening braces, something without a closing one, and two of those. -/
theorem slotAt?_chars {inside : List Char} (hne : inside ≠ []) (h : ∀ c ∈ inside, c ≠ '\x7d')
    (after : List Char) : slotAt? ((Piece.slot inside).chars ++ after) = some (inside, after) := by
  have := slotAt?_close h ('\x7d' :: after)
  simpa [Piece.chars, hne] using this

/-! ### Cutting a filled text -/

/-- A text with its placeholders replaced by their values, as characters. -/
abbrev filledText (values : List (String × Binary64)) (cs : List Char) : List Char :=
  (pieces cs).flatMap (Piece.fill values)

/-- Where no placeholder begins, the character stays and filling in goes on behind it. -/
theorem filledText_char {c : Char} {rest : List Char} (h : slotAt? (c :: rest) = none) :
    filledText values (c :: rest) = c :: filledText values rest := by
  rw [filledText, pieces_cons_char h, List.flatMap_cons, Piece.fill_char]
  rfl

/-- What a filled text begins with, if it is a brace, the text itself begins with, and if it belongs to a
placeholder, that stays. -/
theorem exists_eq_brace_cons {brace : Char} (hbrace : brace = '\x7b' ∨ brace = '\x7d') {cs rest : List Char}
    (h : filledText values cs = brace :: rest) : ∃ rest', cs = brace :: rest' ∧
      ((slotAt? cs).isSome ∨ slotAt? cs = none ∧ rest = filledText values rest') := by
  cases cs with
  | nil => simp [filledText, pieces] at h
  | cons c cs =>
    cases hslot : slotAt? (c :: cs) with
    | none =>
      rw [filledText_char hslot] at h
      obtain ⟨rfl, rfl⟩ := List.cons.inj h
      exact ⟨cs, rfl, .inr ⟨rfl, rfl⟩⟩
    | some cut =>
      obtain ⟨inside, after⟩ := cut
      rw [filledText, pieces_cons_slot hslot, List.flatMap_cons] at h
      obtain ⟨x, -, hfill, -⟩ | ⟨-, hfill, -⟩ := Piece.filled_slot values inside
      · obtain ⟨d, ds, hliteral, hd⟩ := x.exists_literal_eq_cons
        rw [hfill, hliteral] at h
        obtain rfl : d = brace := (List.cons.inj h).1
        obtain ⟨hopen, hclose⟩ := hd d List.mem_cons_self
        exact absurd hbrace (not_or.2 ⟨hopen, hclose⟩)
      · rw [hfill] at h
        have hcs := slotAt?_append hslot
        obtain rfl : '\x7b' = brace := (List.cons.inj h).1
        exact ⟨cs, by rw [(List.cons.inj hcs).1], .inl rfl⟩

/-- **The first closing braces of a filled text are two that belong together only if those of the text are.**
Literals put in before them have no braces, so none comes about by filling in. -/
theorem exists_close_of_filledText {cs inside after : List Char} (hinside : ∀ c ∈ inside, c ≠ '\x7d')
    (h : filledText values cs = inside ++ '\x7d' :: '\x7d' :: after) :
    ∃ inside' after', cs = inside' ++ '\x7d' :: '\x7d' :: after' ∧ (∀ c ∈ inside', c ≠ '\x7d') ∧
      (inside ≠ [] → inside' ≠ []) := by
  fun_induction pieces cs generalizing inside with
  | case1 => simp [filledText, pieces] at h
  | case2 c rest slot behind hslot _ ih =>
    obtain ⟨hne, hclose⟩ := inside_of_slotAt? hslot
    refine ⟨'\x7b' :: '\x7b' :: slot, behind, ?_, ?_, fun _ => List.cons_ne_nil _ _⟩
    · rw [slotAt?_append hslot]
      simp [Piece.chars]
    · exact List.forall_mem_cons.2 ⟨by decide, List.forall_mem_cons.2 ⟨by decide, hclose⟩⟩
  | case3 c rest hslot ih =>
    rw [filledText_char hslot] at h
    cases inside with
    | nil =>
      obtain ⟨rfl, hrest⟩ := List.cons.inj h
      obtain ⟨rest', rfl, -⟩ := exists_eq_brace_cons (.inr rfl) hrest
      exact ⟨[], rest', rfl, List.forall_mem_nil _, id⟩
    | cons d inside =>
      obtain ⟨rfl, hrest⟩ := List.cons.inj h
      obtain ⟨hd, hinside⟩ := List.forall_mem_cons.1 hinside
      obtain ⟨inside', after', rfl, hinside', -⟩ := ih hinside hrest
      exact ⟨c :: inside', after', rfl, List.forall_mem_cons.2 ⟨hd, hinside'⟩, fun _ => List.cons_ne_nil _ _⟩

/-- A character that begins no placeholder begins none in front of a filled text either. -/
theorem slotAt?_filledText {c : Char} {rest : List Char} (h : slotAt? (c :: rest) = none) :
    slotAt? (c :: filledText values rest) = none := by
  rw [Option.eq_none_iff_forall_ne_some]
  rintro ⟨inside, after⟩ hslot
  have htext := slotAt?_append hslot
  obtain ⟨hne, hinside⟩ := inside_of_slotAt? hslot
  obtain ⟨rfl, hbrace⟩ := List.cons.inj htext
  obtain ⟨rest', rfl, hsome | ⟨-, hrest⟩⟩ := exists_eq_brace_cons (.inl rfl) hbrace
  · -- A third brace in front of a placeholder would itself begin one.
    obtain ⟨⟨slot, behind⟩, hslot'⟩ := Option.isSome_iff_exists.1 hsome
    obtain ⟨-, hclose⟩ := inside_of_slotAt? hslot'
    have hlonger := slotAt?_chars (List.cons_ne_nil '\x7b' slot)
      (List.forall_mem_cons.2 ⟨by decide, hclose⟩) behind
    rw [slotAt?_append hslot'] at h
    exact absurd (h.symm.trans hlonger) (by simp)
  · have hclose : filledText values rest' = inside ++ '\x7d' :: '\x7d' :: after := by
      rw [← hrest]
      simp
    obtain ⟨inside', after', rfl, hinside', hne'⟩ := exists_close_of_filledText hinside hclose
    have hfound := slotAt?_chars (hne' hne) hinside' after'
    rw [Piece.chars, List.append_assoc] at hfound
    exact absurd (h.symm.trans hfound) (by simp)

/-- **A filled text falls into the parts that were put together.** By induction on the scan of the template: a
brace that is left begins no placeholder in the filled text that was not one before. -/
theorem pieces_filledText (cs : List Char) :
    pieces (filledText values cs) = (pieces cs).flatMap (Piece.filled values) := by
  fun_induction pieces cs with
  | case1 => simp [filledText, pieces]
  | case2 c rest inside after hslot _ ih =>
    rw [filledText, pieces_cons_slot hslot, List.flatMap_cons, List.flatMap_cons]
    obtain ⟨x, -, hfill, hfilled⟩ | ⟨-, hfill, hfilled⟩ := Piece.filled_slot values inside
    · obtain ⟨d, ds, hliteral, hd⟩ := x.exists_literal_eq_cons
      rw [hfill, hfilled, pieces_append_of_ne (fun c hc => (hd c (hliteral ▸ hc)).1), ih]
    · obtain ⟨hne, hclose⟩ := inside_of_slotAt? hslot
      rw [hfill, hfilled, ← ih]
      exact pieces_cons_slot (slotAt?_chars hne hclose _)
  | case3 c rest hslot ih =>
    rw [filledText_char hslot, pieces_cons_char (slotAt?_filledText hslot), ih, List.flatMap_cons,
      Piece.filled_char]
    rfl

/-- **A filled text is cut where the template was.** Each piece becomes the pieces of what is filled in for it:
literals have no braces, so no new placeholder comes about. -/
theorem pieces_fill (values : List (String × Binary64)) (source : String) :
    pieces (fill values source).toList = (pieces source.toList).flatMap (Piece.filled values) := by
  rw [fill, String.toList_ofList]
  exact pieces_filledText _

/-! ### Names -/

/-- Leaving names out and listing first places can be changed in their order. -/
theorem firsts_filter (p : String → Bool) (xs : List String) :
    firsts (xs.filter p) = (firsts xs).filter p := by
  induction xs using List.reverseRecOn with
  | nil => rfl
  | append_singleton xs x ih =>
    rw [List.filter_append, firsts_concat]
    cases hx : p x with
    | false =>
      simp only [List.filter_cons_of_neg (Bool.not_eq_true _ ▸ hx), List.filter_nil, List.append_nil, ih]
      split
      · rfl
      · simp [hx]
    | true =>
      have hcontains : ((firsts xs).filter p).contains x = (firsts xs).contains x := by
        simp [hx, List.contains_eq_mem]
      simp only [List.filter_cons_of_pos hx, List.filter_nil, firsts_concat, ih, hcontains]
      split
      · rfl
      · rw [List.filter_append, List.filter_cons_of_pos hx, List.filter_nil]

/-- The parts without a value keep their names. -/
theorem filterMap_name?_filled (ps : List Piece) : (ps.flatMap (Piece.filled values)).filterMap Piece.name? =
    (ps.filterMap Piece.name?).filter fun name => (lookup? name values).isNone := by
  have hchars (cs : List Char) : (cs.map Piece.char).filterMap Piece.name? = [] := by
    simp [List.filterMap_eq_nil_iff, Piece.name?]
  induction ps with
  | nil => rfl
  | cons p ps ih =>
    rw [List.flatMap_cons, List.filterMap_append, ih]
    cases p with
    | char c => rfl
    | slot inside =>
      obtain ⟨x, hx, -, hfilled⟩ | ⟨hx, -, hfilled⟩ := Piece.filled_slot values inside
      · rw [hfilled, hchars]
        simp [Piece.name?, hx]
      · rw [hfilled]
        simp [Piece.name?, hx]

/-- A placeholder that is there after filling in was there before. -/
theorem eq_of_slot_mem_filled {piece : Piece} {inside : List Char} (h : .slot inside ∈ piece.filled values) :
    piece = .slot inside := by
  cases piece with
  | char c => simp [Piece.filled_char] at h
  | slot other =>
    obtain ⟨x, -, -, hfilled⟩ | ⟨-, -, hfilled⟩ := Piece.filled_slot values other
    · simp [hfilled] at h
    · simpa [hfilled, eq_comm] using h

/-- Filling in twice is filling in once, piece by piece. -/
theorem fill_filled (piece : Piece) :
    (piece.filled values).flatMap (Piece.fill values) = piece.fill values := by
  cases piece with
  | char c => rfl
  | slot inside =>
    obtain ⟨x, -, hfill, hfilled⟩ | ⟨-, -, hfilled⟩ := Piece.filled_slot values inside
    · rw [hfill, hfilled, flatMap_fill_map_char]
    · rw [hfilled, List.flatMap_singleton]

/-- **Filling in leaves the placeholders without a value, in their order, and makes no others.** With a value for
every one none is left, and a second filling changes nothing. -/
theorem placeholders_fill (values : List (String × Binary64)) (source : String) :
    placeholders (fill values source) =
        (placeholders source).filter (fun name => (lookup? name values).isNone) ∧
      ((∀ name ∈ placeholders source, (lookup? name values).isSome) → placeholders (fill values source) = []) ∧
      (∀ inside, .slot inside ∈ pieces (fill values source).toList → .slot inside ∈ pieces source.toList) ∧
      fill values (fill values source) = fill values source := by
  have hleft : placeholders (fill values source) =
      (placeholders source).filter fun name => (lookup? name values).isNone := by
    rw [placeholders, placeholders, ← firsts_filter, pieces_fill, filterMap_name?_filled]
  refine ⟨hleft, fun hcovers => ?_, fun inside hi => ?_, ?_⟩
  · rw [hleft, List.filter_eq_nil_iff]
    exact fun name hname => by simp [Option.ne_none_iff_isSome.2 (hcovers name hname)]
  · rw [pieces_fill, List.mem_flatMap] at hi
    obtain ⟨piece, hpiece, hi⟩ := hi
    obtain rfl := eq_of_slot_mem_filled hi
    exact hpiece
  · rw [fill, pieces_fill, List.flatMap_assoc, fill]
    simp only [fill_filled]

/-- The opening braces in front do not find the closing ones behind once the placeholder between them is filled. -/
example : let source := "\x7b\x7ba\x7d\x7b\x7bb\x7d\x7d\x7d"
    placeholders source = ["b"] ∧ fill [("b", .ofInt 5)] source = "\x7b\x7ba\x7d5.0\x7d" ∧
      placeholders (fill [("b", .ofInt 5)] source) = [] := by
  decide +kernel

end Formula
end Tariff
