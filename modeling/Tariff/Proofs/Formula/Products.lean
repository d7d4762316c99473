/-
# A placeholder times a number

The formula `{{name}} * u` has one placeholder, and with a finite value `x` for it the formula is read as the product of
two numbers, each behind its sign (`parse_times`). So it gives `x * u`, if that is finite, whatever way `u` is written:
digits with at most one point, behind a minus sign if it is negative (`IsSpelling`).

| value | factor | filled in | tokens |
| --- | --- | --- | --- |
| `3` | `2.5` | `3.0 * 2.5` | `3.0`, `*`, `2.5` |
| `-3` | `-2` | `-3.0 * -2` | `-`, `3.0`, `*`, `-`, `2` |
-/

import Tariff.Proofs.Formula.Margins
import Tariff.Proofs.Formula.Placeholders

namespace Tariff

namespace Formula

open Decimal (signText)
open Numeral (Positional)

/-- A text writes a number: digits with at most one point, behind a minus sign if it is negative. -/
def IsSpelling (text : String) (x : Binary64) : Prop :=
  ∃ s digits, text.toList = signText s digits ∧ Positional digits ∧
    x = if s then UnaryOp.minus.apply (numberValue digits) else numberValue digits

/-- Every finite number is written by its literal. -/
theorem isSpelling_literal {x : Binary64} (h : x.isFinite) : IsSpelling x.literal x := by
  match x with
  | .finite s m =>
    refine ⟨s, m.literal, Binary64.toList_literal_eq_signText s m, m.literal_positional, ?_⟩
    rw [m.numberValue_literal]
    cases s <;> rfl
  | .infinite _ => cases h
  | .nan => cases h

theorem isFormulaChar_of_mem_signText {s : Bool} {digits : List Char} (h : Positional digits) :
    ∀ c ∈ signText s digits, isFormulaChar c := by
  intro c hc
  cases s with
  | false => exact isFormulaChar_of_positional h c hc
  | true =>
    rcases List.mem_cons.1 hc with rfl | hc
    · decide
    · exact isFormulaChar_of_positional h c hc

/-- The tokens of a number with its sign, wherever they stand. -/
def signTokens (s : Bool) (digits : List Char) : List Token :=
  (if s then [⟨.symbol .minus, 0⟩] else []) ++ [⟨.number digits, 0⟩]

/-- A number with its sign spells its one or two terminals where no digit and no point follows. -/
theorem Spells.signText {s : Bool} {digits rest : List Char} {ts : List (Terminal (List Char))} (h : Positional digits)
    (hr : ∀ c ∈ rest.head?, c.isDigit = false ∧ c ≠ '.') (hrest : Spells rest ts) :
    Spells (signText s digits ++ rest) ((signTokens s digits).map Token.terminal ++ ts) := by
  cases s with
  | false => exact hrest.number h hr
  | true => exact (hrest.number h hr).minus

/-- The tree of a number with its sign. -/
def signTree (s : Bool) (x : Binary64) : Expr := if s then .unary .minus (.number x) else .number x

/-- The tree of a number with its sign has the value with that sign. -/
theorem value_signTree (s : Bool) (x : Binary64) :
    (signTree s x).value = if s then UnaryOp.minus.apply x else x := by
  cases s <;> rfl

/-- **Two numbers with a star between them are read as their product.** Each is one number behind its sign, and
a sign binds tighter than the star, so it is the product of the two signed numbers. -/
theorem parse_times {s t : Bool} {digits places : List Char} (h : Positional digits) (h' : Positional places) :
    parse (String.ofList (signText s digits ++ ' ' :: '*' :: ' ' :: signText t places)) =
      .ok (.binary .times (signTree s (numberValue digits)) (signTree t (numberValue places))) := by
  -- The text is spelled from the back, and its tokens are read for each choice of the two signs.
  have hright : Spells (signText t places ++ []) ((signTokens t places).map Token.terminal ++ []) :=
    spells_nil.signText h' (by simp)
  rw [List.append_nil, List.append_nil] at hright
  have hstar : Spells ('*' :: ' ' :: signText t places)
      (.symbol .times :: (signTokens t places).map Token.terminal) :=
    (hright.blank (by decide)).lexeme (l := .symbol .times) rfl
  have hall : Spells (signText s digits ++ ' ' :: '*' :: ' ' :: signText t places)
      ((signTokens s digits ++ ⟨.symbol .times, 0⟩ :: signTokens t places).map Token.terminal) := by
    rw [List.map_append, List.map_cons]
    exact (hstar.blank (by decide)).signText h (by simp)
  have htree : ofTokens (signTokens s digits ++ ⟨.symbol .times, 0⟩ :: signTokens t places) =
      .ok (.binary .times (signTree s (numberValue digits)) (signTree t (numberValue places))) := by
    cases s <;> cases t <;> rfl
  refine parse_eq_ok_iff_spells.2 ⟨?_, _, by rwa [String.toList_ofList], htree⟩
  have hchars : ∀ c ∈ signText s digits ++ ' ' :: '*' :: ' ' :: signText t places, isFormulaChar c := by
    intro c hc
    simp only [List.mem_append, List.mem_cons] at hc
    rcases hc with hc | rfl | rfl | rfl | hc
    · exact isFormulaChar_of_mem_signText h c hc
    · decide
    · decide
    · decide
    · exact isFormulaChar_of_mem_signText h' c hc
  have happend := firstForeign?_append hchars none 0 []
  rw [List.append_nil, firstForeign?] at happend
  rwa [String.toList_ofList]

/-! ### With a placeholder -/

/-- The formula that multiplies a placeholder by a factor written out. -/
def scaled (name factor : String) : String := "\x7b\x7b" ++ name ++ "\x7d\x7d * " ++ factor

variable {name factor : String} {x u : Binary64}

/-- The product is the placeholder, the operator between two blanks, and the factor. -/
theorem toList_scaled (name factor : String) : (scaled name factor).toList =
    (Piece.slot name.toList).chars ++ ' ' :: '*' :: ' ' :: factor.toList := by
  simp [scaled, Piece.chars]

/-- The characters of a number written out are admissible and no white space. -/
theorem isFormulaChar_of_mem_spelling (h : IsSpelling factor u) {c : Char} (hc : c ∈ factor.toList) :
    isFormulaChar c ∧ isBlank c = false := by
  obtain ⟨s, digits, htext, hdigits, -⟩ := h
  rw [htext] at hc
  refine ⟨isFormulaChar_of_mem_signText hdigits c hc, ?_⟩
  have hblank {c : Char} (hc : c ∈ digits) : isBlank c = false := isBlank_eq_false ((hdigits.mem hc).imp_right .inl)
  cases s with
  | false => exact hblank hc
  | true =>
    rcases List.mem_cons.1 hc with rfl | hc
    · decide
    · exact hblank hc

theorem IsSpelling.ne_nil (h : IsSpelling factor u) : factor.toList ≠ [] := by
  obtain ⟨s, digits, htext, hdigits, -⟩ := h
  rw [htext]
  cases s with
  | false => exact hdigits.ne_nil
  | true => exact List.cons_ne_nil _ _

/-- The product has no white space at its ends, so that trimming leaves it. -/
theorem trim_scaled (h : IsSpelling factor u) : trim (scaled name factor) = scaled name factor := by
  have htrim : trimChars (scaled name factor).toList = (scaled name factor).toList := by
    rw [toList_scaled]
    refine trimChars_eq_self (fun c hc => ?_) fun c hc => ?_
    · obtain rfl : '\x7b' = c := Option.some.inj hc
      decide
    · have hcut : (Piece.slot name.toList).chars ++ ' ' :: '*' :: ' ' :: factor.toList =
          ((Piece.slot name.toList).chars ++ [' ', '*', ' ']) ++ factor.toList := by simp
      rw [hcut, List.getLast?_append, List.getLast?_eq_some_getLast h.ne_nil, Option.some_or] at hc
      obtain rfl := Option.some.inj hc
      exact (isFormulaChar_of_mem_spelling h (List.getLast_mem h.ne_nil)).2
  rw [trim, htrim, String.ofList_toList]

/-- The product is cut into its placeholder and single characters: a name without a closing brace is kept whole,
and there are no braces behind it. -/
theorem pieces_scaled (hne : name ≠ "") (hname : '\x7d' ∉ name.toList) (h : IsSpelling factor u) :
    pieces (scaled name factor).toList = .slot name.toList :: (' ' :: '*' :: ' ' :: factor.toList).map .char := by
  have hslot := slotAt?_chars (by simpa using hne) (fun c hc => ne_of_mem_of_not_mem hc hname)
    (' ' :: '*' :: ' ' :: factor.toList)
  have hbehind : ∀ c ∈ ' ' :: '*' :: ' ' :: factor.toList, c ≠ '\x7b' := by
    rintro c hc rfl
    simp only [List.mem_cons] at hc
    rcases hc with hc | hc | hc | hc
    · cases hc
    · cases hc
    · cases hc
    · exact absurd (isFormulaChar_of_mem_spelling h hc).1 (by decide)
  have hpieces := pieces_append_of_ne hbehind []
  rw [List.append_nil, pieces, List.append_nil] at hpieces
  rw [toList_scaled, ← hpieces]
  exact pieces_cons_slot hslot

/-- The only placeholder of the product is the name, if that has no white space at its ends. -/
theorem placeholders_scaled (hne : name ≠ "") (htrim : trim name = name) (hname : '\x7d' ∉ name.toList)
    (h : IsSpelling factor u) : placeholders (scaled name factor) = [name] := by
  rw [placeholders, pieces_scaled hne hname h, List.filterMap_cons, filterMap_name?_map_char]
  exact congrArg (fun name => firsts [name]) htrim

/-- **A placeholder times a number is the product,** if that is finite. The value is filled in as its literal,
which is read back exactly, so nothing is lost on the way. -/
theorem evaluate_scaled (hne : name ≠ "") (htrim : trim name = name) (hname : '\x7d' ∉ name.toList)
    (h : IsSpelling factor u) (hx : x.isFinite) (hproduct : (x * u).isFinite) :
    evaluate (fill [(name, x)] (scaled name factor)) = .ok (x * u) := by
  match x with
  | .finite s m =>
    have hlookup : lookup? (String.ofList (trimChars name.toList)) [(name, Binary64.finite s m)] = some (.finite s m) :=
      if_pos htrim.symm
    have hpieces := pieces_scaled hne hname h
    obtain ⟨t, digits, htext, hdigits, rfl⟩ := h
    have hvalue : (Expr.binary .times (signTree s (numberValue m.literal)) (signTree t (numberValue digits))).value =
        Binary64.finite s m * if t then UnaryOp.minus.apply (numberValue digits) else numberValue digits := by
      rw [m.numberValue_literal, Expr.value, value_signTree, value_signTree]
      cases s <;> rfl
    rw [fill, hpieces, List.flatMap_cons, flatMap_fill_map_char, fill_slot hlookup, htext, evaluate,
      parse_times m.literal_positional hdigits]
    simp only [Expr.price, hvalue, hproduct, if_true]
  | .infinite _ => cases hx
  | .nan => cases hx

end Formula
end Tariff
