/-
# Filling in values

A text with placeholders is *cut* into white space, symbols, function names and operands (`Cut`). An
operand is a number, or a placeholder together with the digits that touch it on either side. Behind a
name and behind an operand a word breaks, so whatever is filled in stays the lexeme that it is, and the
text with finite values filled in is made of the same terminals (`Cut.spells`), except that

| operand | with a value | becomes |
| --- | --- | --- |
| a number | | itself |
| a placeholder between digits `b` and `a` | not negative, literal `x` | the number `bxa` |
| a placeholder, digits `a` behind it | negative, literal `-x` | `-` and the number `xa` |
| a placeholder between digits `b` and `a` | negative, literal `-x` | the number `b`, `-` and the number `xa` |

All its characters are admissible (`Cut.firstForeign?_fill`).
-/

import Tariff.Proofs.Formula.Lexing
import Tariff.Proofs.Names

namespace Tariff
namespace Formula

/-- An operand of a text with placeholders. -/
inductive Slotted where
  | number (text : List Char)
  /-- A placeholder between digits that touch it. -/
  | slot (before inside after : List Char)
  deriving DecidableEq, Repr

/-- What an operand becomes when values are filled in; nothing without a finite value. -/
def Slotted.spell (values : List (String × Binary64)) : Slotted → List (Terminal (List Char))
  | number text => [.operand text]
  | slot before inside after =>
    match lookup? (String.ofList (trimChars inside)) values with
    | some (.finite false m) => [.operand (before ++ m.literal ++ after)]
    | some (.finite true m) =>
      (if before.isEmpty then [] else [.operand before]) ++ [.symbol .minus, .operand (m.literal ++ after)]
    | _ => []

/-- The characters in front of the first placeholder. -/
def leading : List Piece → List Char
  | .char c :: rest => c :: leading rest
  | _ => []

/-- Characters in front of the first placeholder are among those that lead. -/
theorem leading_append (cs : List Char) (ps : List Piece) :
    leading (cs.map .char ++ ps) = cs ++ leading ps := by
  induction cs with
  | nil => rfl
  | cons c cs ih => rw [List.map_cons, List.cons_append, leading, ih, List.cons_append]

/-- What stands in front of the first placeholder is made of characters. -/
theorem exists_eq_append_of_prefix {cs : List Char} {ps : List Piece} (h : cs <+: leading ps) :
    ∃ ps', ps = cs.map .char ++ ps' := by
  induction cs generalizing ps with
  | nil => exact ⟨ps, rfl⟩
  | cons c cs ih =>
    match ps with
    | [] => simp [leading] at h
    | .slot _ :: _ => simp [leading] at h
    | .char d :: ps =>
      rw [leading, List.cons_prefix_cons] at h
      obtain ⟨rfl, h⟩ := h
      obtain ⟨ps', rfl⟩ := ih h
      exact ⟨ps', rfl⟩

/-- Nothing comes next, or a character that breaks words. -/
def Ends (ps : List Piece) : Prop := ∀ p ∈ ps.head?, ∃ c, p = .char c ∧ isBreak c

/-- How a text with placeholders is cut into terminals. -/
inductive Cut : List Piece → List (Terminal Slotted) → Prop where
  | nil : Cut [] []
  | blank {c : Char} {ps ts} (hc : isBlank c) (h : Cut ps ts) : Cut (.char c :: ps) ts
  | symbol {s : Symbol} {ps ts} (hs : symbolAt? (s.chars ++ leading ps) = some s) (h : Cut ps ts) :
      Cut (s.chars.map .char ++ ps) (.symbol s :: ts)
  | name {text : List Char} {ps ts} (hn : IsFunctionName text) (he : Ends ps) (h : Cut ps ts) :
      Cut (text.map .char ++ ps) (.name text :: ts)
  | number {text : List Char} {ps ts} (hn : Numeral.Positional text) (he : Ends ps) (h : Cut ps ts) :
      Cut (text.map .char ++ ps) (.operand (.number text) :: ts)
  | slot {before inside after : List Char} {ps ts} (hb : ∀ c ∈ before, c.isDigit)
      (ha : ∀ c ∈ after, c.isDigit) (he : Ends ps) (h : Cut ps ts) :
      Cut (before.map .char ++ .slot inside :: (after.map .char ++ ps))
        (.operand (.slot before inside after) :: ts)

/-- What is looked up for every placeholder is of one kind. -/
def EverySlot (kind : Option Binary64 → Prop) (values : List (String × Binary64)) (ps : List Piece) :
    Prop :=
  ∀ inside, .slot inside ∈ ps → kind (lookup? (String.ofList (trimChars inside)) values)

/-- Every placeholder has a finite value. -/
abbrev Covers := EverySlot fun x => ∃ s m, x = some (.finite s m)

/-- Every placeholder has a finite value without a minus sign. -/
abbrev CoversUnsigned := EverySlot fun x => ∃ m, x = some (.finite false m)

variable {values : List (String × Binary64)} {ps : List Piece}

namespace EverySlot

variable {kind : Option Binary64 → Prop} {run : List Piece}

theorem tail {p : Piece} (h : EverySlot kind values (p :: ps)) : EverySlot kind values ps :=
  fun inside hi => h inside (List.mem_cons_of_mem _ hi)

theorem left (h : EverySlot kind values (run ++ ps)) : EverySlot kind values run :=
  fun inside hi => h inside (List.mem_append_left _ hi)

theorem drop (h : EverySlot kind values (run ++ ps)) : EverySlot kind values ps :=
  fun inside hi => h inside (List.mem_append_right _ hi)

end EverySlot

/-- Only placeholders become operands with one. -/
theorem Cut.slot_mem {ts : List (Terminal Slotted)} (h : Cut ps ts) {before inside after : List Char}
    (hm : .operand (.slot before inside after) ∈ ts) : .slot inside ∈ ps := by
  induction h with
  | nil => simp at hm
  | blank hc h ih => exact List.mem_cons_of_mem _ (ih hm)
  | symbol hs h ih => exact List.mem_append_right _ (ih (by simpa using hm))
  | name hn he h ih => exact List.mem_append_right _ (ih (by simpa using hm))
  | number hn he h ih => exact List.mem_append_right _ (ih (by simpa using hm))
  | slot hb ha he h ih =>
    simp only [List.mem_append, List.mem_cons]
    rcases List.mem_cons.1 hm with hm | hm
    · obtain ⟨-, rfl, -⟩ := Slotted.slot.inj (Terminal.operand.inj hm)
      exact .inr (.inl rfl)
    · exact .inr (.inr (.inr (ih hm)))

/-- What is looked up for the names of all placeholders is looked up for all placeholders. -/
theorem everySlot_of_placeholders {kind : Option Binary64 → Prop} {source : String}
    (h : ∀ name ∈ placeholders source, kind (lookup? name values)) :
    EverySlot kind values (pieces source.toList) :=
  fun _ hi => h _ ((mem_firsts _).2 (List.mem_filterMap.2 ⟨_, hi, rfl⟩))

/-- If every name that is listed has a finite value, every placeholder has: the list leaves no name out. -/
theorem covers_of_placeholders {source : String} (h : ∀ name ∈ placeholders source,
    ∃ x, lookup? name values = some x ∧ x.isFinite) : Covers values (pieces source.toList) := by
  refine everySlot_of_placeholders fun name hname => ?_
  obtain ⟨x, hx, hfinite⟩ := h name hname
  match x with
  | .finite s m => exact ⟨s, m, hx⟩
  | .infinite _ => simp [Binary64.isFinite] at hfinite
  | .nan => simp [Binary64.isFinite] at hfinite

/-- A single placeholder is given its value by name. -/
theorem finite_of_placeholders_eq {source name : String} (h : placeholders source = [name])
    {x : Binary64} (hx : x.isFinite) :
    ∀ n ∈ placeholders source, ∃ y, lookup? n [(name, x)] = some y ∧ y.isFinite := by
  intro n hn
  obtain rfl := List.mem_singleton.1 (h ▸ hn)
  exact ⟨x, if_pos rfl, hx⟩

/-! ### The text with its values -/

/-- Single characters stay as they are when values are filled in. -/
theorem flatMap_fill_map_char (cs : List Char) :
    (cs.map Piece.char).flatMap (Piece.fill values) = cs := by
  induction cs with
  | nil => rfl
  | cons c cs ih => rw [List.map_cons, List.flatMap_cons, ih]; rfl

/-- A placeholder with a finite value becomes the literal of its size, with a minus sign in front if it has one.
-/
theorem fill_slot {inside : List Char} {s : Bool} {m : Magnitude}
    (h : lookup? (String.ofList (trimChars inside)) values = some (.finite s m)) :
    Piece.fill values (.slot inside) = Decimal.signText s m.literal := by
  simp only [Piece.fill, Piece.name?, h, Binary64.toList_literal_eq_signText]

/-- Where a word breaks in a text it breaks in the text with its values. -/
theorem Ends.breaks (h : Ends ps) : Breaks (ps.flatMap (Piece.fill values)) := by
  cases ps with
  | nil => simp [Breaks]
  | cons p ps =>
    obtain ⟨c, rfl, hc⟩ := h p rfl
    intro d hd
    obtain rfl : c = d := by simpa [Piece.fill, Piece.name?, Piece.chars] using hd
    exact hc

/-- What may come next where the characters in front of the first placeholder end: the literal of its value, or white
space behind the text. -/
def isSeam (c : Char) : Bool := c.isDigit || c = '-' || isBlank c

/-- A number that is filled in begins with a digit or a minus sign, so a function name in front ends there. -/
theorem isSeam_head?_signText (s : Bool) (m : Magnitude) (rest : List Char) :
    ∀ c ∈ (Decimal.signText s m.literal ++ rest).head?, isSeam c := by
  intro c hc
  cases s with
  | true =>
    obtain rfl : '-' = c := by simpa [Decimal.signText] using hc
    decide
  | false =>
    obtain ⟨d, cs, hm⟩ := List.exists_cons_of_ne_nil m.literal_positional.ne_nil
    obtain rfl : d = c := by simpa [Decimal.signText, hm] using hc
    simp [isSeam, m.isDigit_head?_literal d (by simp [hm])]

/-- Filling in leaves the characters in front of the first placeholder. White space may follow the text. -/
theorem exists_fill_eq_leading_append (h : Covers values ps) {blanks : List Char} (hb : ∀ c ∈ blanks, isBlank c) :
    ∃ tail, ps.flatMap (Piece.fill values) ++ blanks = leading ps ++ tail ∧ ∀ c ∈ tail.head?, isSeam c := by
  induction ps with
  | nil => exact ⟨blanks, rfl, fun c hc => by simp [isSeam, hb c (List.mem_of_mem_head? hc)]⟩
  | cons p ps ih =>
    cases p with
    | char c =>
      obtain ⟨tail, htail, hc⟩ := ih h.tail
      exact ⟨tail, by rw [List.flatMap_cons, List.append_assoc, htail]; rfl, hc⟩
    | slot inside =>
      obtain ⟨s, m, hx⟩ := h inside List.mem_cons_self
      refine ⟨_, ?_, isSeam_head?_signText s m (ps.flatMap (Piece.fill values) ++ blanks)⟩
      rw [List.flatMap_cons, fill_slot hx, List.append_assoc]
      rfl

/-- No literal makes a symbol in front of it longer. -/
theorem symbolAt?_fill (s : Symbol) (h : Covers values ps) {blanks : List Char} (hb : ∀ c ∈ blanks, isBlank c) :
    symbolAt? (s.chars ++ (ps.flatMap (Piece.fill values) ++ blanks)) = symbolAt? (s.chars ++ leading ps) := by
  obtain ⟨tail, htail, hseam⟩ := exists_fill_eq_leading_append h hb
  rw [htail, ← List.append_assoc, symbolAt?_append (by simp [s.chars_ne_nil])]
  intro c hc
  refine ⟨?_, ?_, ?_⟩ <;> (rintro rfl; exact absurd (hseam _ hc) (by decide))

/-! ### Its terminals -/

variable {rest : List Char} {us : List (Terminal (List Char))}

/-- A number is an operand where no digit and no point follows. -/
theorem Spells.number {text : List Char} (ht : Numeral.Positional text)
    (hr : ∀ c ∈ rest.head?, c.isDigit = false ∧ c ≠ '.') (h : Spells rest us) :
    Spells (text ++ rest) (.operand text :: us) :=
  h.lexeme (l := .number text) (lexemeAt?_number ht hr)

/-- A minus sign is a symbol of its own, whatever follows. -/
theorem Spells.minus (h : Spells rest us) : Spells ('-' :: rest) (.symbol .minus :: us) :=
  h.lexeme (l := .symbol .minus) rfl

/-- A placeholder with the digits around it becomes one operand, or a minus sign and one operand, where
something follows that no number goes on with. -/
theorem Spells.slot {before inside after : List Char} {s : Bool} {m : Magnitude}
    (hx : lookup? (String.ofList (trimChars inside)) values = some (.finite s m))
    (hb : ∀ c ∈ before, c.isDigit) (ha : ∀ c ∈ after, c.isDigit) (hr : Breaks rest)
    (h : Spells rest us) :
    Spells (before ++ Decimal.signText s m.literal ++ after ++ rest)
      ((Slotted.slot before inside after).spell values ++ us) := by
  have hm := m.literal_positional
  cases s with
  | false =>
    simp only [Slotted.spell, hx, Decimal.signText]
    exact h.number (hm.glue hb ha) hr.ends_number
  | true =>
    have hsize : Spells (m.literal ++ after ++ rest) (.operand (m.literal ++ after) :: us) :=
      h.number (hm.glue (List.forall_mem_nil _) ha) hr.ends_number
    simp only [Slotted.spell, hx, Decimal.signText]
    cases before with
    | nil => simpa using hsize.minus
    | cons c before =>
      have hwhole : Numeral.Positional (c :: before) := .whole (List.cons_ne_nil _ _) hb
      simpa using hsize.minus.number hwhole (by simp)

/-- **The terminals of a text with its values.** Where a template is cut, its text with finite values spells the
terminals of the pieces, each placeholder with the digits around it as one operand or as a sign and one. -/
theorem Cut.spells {ts : List (Terminal Slotted)} (h : Cut ps ts) (hv : Covers values ps) :
    Spells (ps.flatMap (Piece.fill values)) (ts.flatMap (Terminal.expand (Slotted.spell values))) := by
  induction h with
  | nil => exact spells_nil
  | blank hc h ih => exact (ih hv.tail).blank hc
  | @symbol s ps ts hs h ih =>
    rw [List.flatMap_append, flatMap_fill_map_char]
    refine (ih hv.drop).lexeme (l := .symbol s) (lexemeAt?_symbol ?_)
    simpa only [List.append_nil, hs] using symbolAt?_fill s hv.drop (List.forall_mem_nil _)
  | @name text ps ts hn he h ih =>
    rw [List.flatMap_append, flatMap_fill_map_char]
    exact (ih hv.drop).lexeme (l := .name text) (lexemeAt?_name hn he.breaks)
  | number hn he h ih =>
    rw [List.flatMap_append, flatMap_fill_map_char]
    exact (ih hv.drop).number hn he.breaks.ends_number
  | @slot before inside after ps ts hb ha he h ih =>
    obtain ⟨s, m, hx⟩ := hv inside (by simp)
    simp only [List.flatMap_append, List.flatMap_cons, flatMap_fill_map_char, fill_slot hx]
    simpa [Terminal.expand] using Spells.slot hx hb ha he.breaks (ih hv.drop.tail.drop)

/-! ### Its characters -/

/-- What is filled in for a placeholder is made of digits, points and minus signs, all of them admissible. -/
theorem isFormulaChar_of_mem_slot {before after : List Char} (s : Bool) (m : Magnitude)
    (hb : ∀ c ∈ before, c.isDigit) (ha : ∀ c ∈ after, c.isDigit) :
    ∀ c ∈ before ++ Decimal.signText s m.literal ++ after, isFormulaChar c := by
  have hdigit {c : Char} (hc : c.isDigit) : isFormulaChar c := by simp [isFormulaChar, hc]
  intro c hc
  simp only [List.mem_append] at hc
  rcases hc with (hc | hc) | hc
  · exact hdigit (hb c hc)
  · cases s with
    | false => exact isFormulaChar_of_positional m.literal_positional c hc
    | true =>
      rcases List.mem_cons.1 hc with rfl | hc
      · decide
      · exact isFormulaChar_of_positional m.literal_positional c hc
  · exact hdigit (ha c hc)

/-- Symbols are no parts of words. -/
theorem isWordChar_getLast?_chars (s : Symbol) (before : Option Char) :
    ((s.chars.getLast?.or before).map isWordChar).getD false = false := by
  cases s <;> rfl

/-- No word breaks in front of a function name. -/
theorem not_ends_name {text : List Char} (h : IsFunctionName text) :
    ¬ Ends (text.map Piece.char ++ ps) := by
  intro he
  have hfirst := (isWordChar_of_mem_spellings h.mem_spellings).1
  cases text with
  | nil => simp at hfirst
  | cons c cs =>
    obtain ⟨d, hd, hbreak⟩ := he _ rfl
    obtain rfl := Piece.char.inj hd
    simp [isWordChar_of_isBreak hbreak] at hfirst

/-- **The characters of a text with its values are admissible.** A function name at the front needs the
edge of a word there. -/
theorem Cut.firstForeign?_fill {ts : List (Terminal Slotted)} (h : Cut ps ts) (hv : Covers values ps)
    {last : Option Char} (hb : Ends ps ∨ (last.map isWordChar).getD false = false) (position : Nat) :
    firstForeign? last 0 position (ps.flatMap (Piece.fill values)) = none := by
  induction h generalizing last position with
  | nil => rfl
  | @blank c ps ts hc h ih =>
    -- `hb` is the invariant: a name comes next only where a word can begin.
    have hword : ((some c).map isWordChar).getD false = false :=
      isWordChar_of_isBreak (isBreak_of_isBlank hc)
    exact (firstForeign?_cons (by simp [isFormulaChar, hc]) last position _).trans
      (ih hv.tail (.inr hword) _)
  | @symbol s ps ts hs h ih =>
    rw [List.flatMap_append, flatMap_fill_map_char,
      firstForeign?_append (isFormulaChar_of_mem_chars s)]
    exact ih hv.drop (.inr (isWordChar_getLast?_chars s last)) _
  | name hn he h ih =>
    rw [List.flatMap_append, flatMap_fill_map_char,
      firstForeign?_name hn he.breaks (hb.resolve_left (not_ends_name hn))]
    exact ih hv.drop (.inl he) _
  | number hn he h ih =>
    rw [List.flatMap_append, flatMap_fill_map_char,
      firstForeign?_append (isFormulaChar_of_positional hn)]
    exact ih hv.drop (.inl he) _
  | @slot before inside after ps ts hbefore ha he h ih =>
    obtain ⟨s, m, hx⟩ := hv inside (by simp)
    simp only [List.flatMap_append, List.flatMap_cons, flatMap_fill_map_char, fill_slot hx]
    have happend := firstForeign?_append (isFormulaChar_of_mem_slot s m hbefore ha) last position
      (ps.flatMap (Piece.fill values))
    simp only [List.append_assoc] at happend
    rw [happend]
    exact ih hv.drop.tail.drop (.inl he) _

end Formula
end Tariff
