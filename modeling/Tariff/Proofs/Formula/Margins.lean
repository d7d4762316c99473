/-
# White space around a formula

White space at the ends of a text makes no difference to the formula that it is: it has the same tokens, further on in
the text, and the same number, or none (`toOption_evaluate_append`). Only what a fault says of positions, and the text
that it shows, may be another.

| place | tokens | admissible characters |
| --- | --- | --- |
| in front | the same, from a later position on | the first word has an edge in front of it either way |
| behind | the same | the last word has an edge behind it either way |

So a formula may be filled in before its ends are trimmed or after (`toOption_evaluate_fill_trim`).
-/

import Mathlib.Data.List.Find
import Tariff.Formula
import Tariff.Proofs.Formula.Acceptance
import Tariff.Proofs.Formula.Front
import Tariff.Proofs.Formula.Trimming

namespace Tariff

/-! ### Runs in front of a longer text -/

section Runs

variable {α : Type} {p : α → Bool} {xs back : List α} (h : ∀ a ∈ back.head?, p a = false)

include h

/-- What is taken from the front does not change with something behind it at which taking stops. -/
theorem takeWhile_append_stop : (xs ++ back).takeWhile p = xs.takeWhile p := by
  obtain ⟨run, rest, rfl, hrun, hrest⟩ := exists_run p xs
  rw [List.append_assoc, takeWhile_run hrun hrest, takeWhile_run hrun]
  cases rest with
  | nil => exact h
  | cons a rest => exact hrest

/-- What is left over has that behind it, too. -/
theorem dropWhile_append_stop : (xs ++ back).dropWhile p = xs.dropWhile p ++ back := by
  obtain ⟨run, rest, rfl, hrun, hrest⟩ := exists_run p xs
  rw [List.append_assoc, dropWhile_run hrun hrest, dropWhile_run hrun]
  cases rest with
  | nil => exact h
  | cons a rest => exact hrest

end Runs

namespace Formula

/-! ### White space behind a text -/

section Back

variable {back : List Char} (h : ∀ c ∈ back, isBlank c)

include h

theorem breaks_of_isBlank : Breaks back := fun c hc => isBreak_of_isBlank (h c (List.mem_of_mem_head? hc))

/-- What has no white space begins a text with white space behind it just if it begins the text. -/
theorem isPrefixOf_append_isBlank {front : List Char} (hfront : ∀ c ∈ front, isBlank c = false) (cs : List Char) :
    front.isPrefixOf (cs ++ back) = front.isPrefixOf cs := by
  rw [Bool.eq_iff_iff, List.isPrefixOf_iff_prefix, List.isPrefixOf_iff_prefix]
  refine ⟨fun hp => prefix_of_prefix_append hp fun c hc hm => ?_, fun hp => hp.trans (List.prefix_append _ _)⟩
  simpa [hfront c hm] using h c (List.mem_of_mem_head? hc)

theorem numberAt?_append_isBlank (cs : List Char) : numberAt? (cs ++ back) = numberAt? cs := by
  have hends := (breaks_of_isBlank h).ends_number
  have hdigit : ∀ c ∈ back.head?, c.isDigit = false := fun c hc => (hends c hc).1
  simp only [numberAt?, takeWhile_append_stop hdigit, dropWhile_append_stop hdigit]
  cases cs.dropWhile Char.isDigit with
  | nil =>
    cases back with
    | nil => rfl
    | cons c back =>
      have hpoint : c ≠ '.' := (hends c rfl).2
      cases cs.takeWhile Char.isDigit <;> simp [hpoint]
  | cons d rest =>
    by_cases hd : d = '.'
    · subst hd
      cases cs.takeWhile Char.isDigit <;> simp [takeWhile_append_stop hdigit]
    · cases cs.takeWhile Char.isDigit <;> simp [hd]

theorem nameAt?_append_isBlank (cs : List Char) : nameAt? (cs ++ back) = nameAt? cs := by
  have hname := (breaks_of_isBlank h).ends_name
  have hletters : "Math.".toList.all fun c => !isBlank c := by decide +kernel
  have hqualifier : ∀ c ∈ "Math.".toList, isBlank c = false := fun c hc => by
    simpa using List.all_eq_true.1 hletters c hc
  simp only [nameAt?, isPrefixOf_append_isBlank h hqualifier, takeWhile_append_stop hname]
  cases hp : "Math.".toList.isPrefixOf cs with
  | false => rfl
  | true =>
    have hlength := (List.isPrefixOf_iff_prefix.1 hp).length_le
    rw [List.drop_append_of_le_length hlength, takeWhile_append_stop hname]

/-- The lexeme at the front is the same with white space at the end. -/
theorem lexemeAt?_append_isBlank {cs : List Char} (hne : cs ≠ []) : lexemeAt? (cs ++ back) = lexemeAt? cs := by
  have hsymbol : symbolAt? (cs ++ back) = symbolAt? cs := by
    refine symbolAt?_append hne fun c hc => ?_
    have hblank := h c (List.mem_of_mem_head? hc)
    refine ⟨?_, ?_, ?_⟩ <;> (rintro rfl; exact absurd hblank (by decide +kernel))
  rw [lexemeAt?, lexemeAt?, numberAt?_append_isBlank h, nameAt?_append_isBlank h, hsymbol]

/-- **White space behind a text makes no difference to its tokens.** No lexeme goes on with white space, and
none begins with it. -/
theorem tokensFrom_append_isBlank (position : Nat) (cs : List Char) :
    tokensFrom position (cs ++ back) = tokensFrom position cs := by
  fun_induction tokensFrom position cs with
  | case1 position => exact tokensFrom_blanks h position
  | case2 position c rest hc ih => rw [List.cons_append, tokensFrom_blank hc, ih]
  | case3 position c rest hc hl =>
    have hl' := (lexemeAt?_append_isBlank h (List.cons_ne_nil c rest)).trans hl
    rw [List.cons_append] at hl' ⊢
    rw [tokensFrom, if_neg hc]
    split
    · rfl
    · rename_i hsome
      simp [hl'] at hsome
  | case4 position c rest hc l hl hpos ih =>
    obtain ⟨after, hafter⟩ := prefix_of_lexemeAt? hl
    have hdrop : (c :: rest).drop l.chars.length = after := by rw [← hafter, List.drop_left]
    have hl' := (lexemeAt?_append_isBlank h (List.cons_ne_nil c rest)).trans hl
    rw [hdrop] at ih ⊢
    rw [← hafter, List.append_assoc] at hl' ⊢
    rw [tokensFrom_lexeme hl', ih]

/-- White space behind a word leaves the edge behind it. -/
theorem isWordEdge_append_isBlank (last : Option Char) (cs : List Char) :
    isWordEdge last (cs ++ back).head? = isWordEdge last cs.head? := by
  cases cs with
  | nil => rw [isWordEdge, isWordEdge, List.nil_append, (breaks_of_isBlank h).ends_word]; rfl
  | cons c cs => rfl

/-- A function name begins a text just if it does with white space at the end, since a word ends there as it
does at the end of the text. -/
theorem beginsWithName_append_isBlank (cs : List Char) {name : List Char} (hname : name ∈ spellings) :
    beginsWithName (cs ++ back) name = beginsWithName cs name := by
  have hletters : spellings.all fun name => name.all fun c => !isBlank c := by decide +kernel
  have hblank : ∀ c ∈ name, isBlank c = false := fun c hc => by
    simpa using List.all_eq_true.1 (List.all_eq_true.1 hletters name hname) c hc
  rw [beginsWithName, beginsWithName, isPrefixOf_append_isBlank h hblank]
  cases hp : name.isPrefixOf cs with
  | false => rfl
  | true =>
    have hlength := (List.isPrefixOf_iff_prefix.1 hp).length_le
    rw [List.drop_append_of_le_length hlength, isWordEdge_append_isBlank h]

/-- The check finds the same function names with white space at the end. -/
theorem nameLength?_append_isBlank (before : Option Char) {cs : List Char} (hne : cs ≠ []) :
    nameLength? before (cs ++ back) = nameLength? before cs := by
  have hhead : (cs ++ back).head? = cs.head? := by
    obtain ⟨c, rest, rfl⟩ := List.exists_cons_of_ne_nil hne
    rfl
  have hfind : spellings.find? (beginsWithName (cs ++ back)) = spellings.find? (beginsWithName cs) :=
    List.find?_congr fun name hname => beginsWithName_append_isBlank h cs hname
  rw [nameLength?, nameLength?, hhead]
  exact congrArg (fun found => if isWordEdge before cs.head? then Option.map List.length found else none) hfind

/-- White space is admissible throughout. -/
theorem firstForeign?_blanks (before : Option Char) (skip position : Nat) :
    firstForeign? before skip position back = none := by
  induction back generalizing before skip position with
  | nil => rfl
  | cons c back ih =>
    have ih := ih fun c hc => h c (List.mem_cons_of_mem _ hc)
    have hc : isFormulaChar c := by simp [isFormulaChar, h c List.mem_cons_self]
    cases skip with
    | zero => exact (firstForeign?_cons hc before position back).trans (ih _ _ _)
    | succ n => exact ih _ _ _

/-- **White space behind a text makes no difference to its characters.** A function name at the end is a word of
its own before white space as it is before nothing. -/
theorem firstForeign?_append_isBlank (before : Option Char) (skip position : Nat) (cs : List Char) :
    firstForeign? before skip position (cs ++ back) = firstForeign? before skip position cs := by
  fun_induction firstForeign? before skip position cs with
  | case1 before skip position => exact firstForeign?_blanks h before skip position
  | case2 before position c rest n ih => exact ih
  | case3 before position c rest n hname ih =>
    have hname' := (nameLength?_append_isBlank h before (List.cons_ne_nil c rest)).trans hname
    rw [List.cons_append] at hname' ⊢
    rw [firstForeign?, hname']
    exact ih
  | case4 before position c rest hname hc ih =>
    have hname' := (nameLength?_append_isBlank h before (List.cons_ne_nil c rest)).trans hname
    rw [List.cons_append] at hname' ⊢
    rw [firstForeign?, hname']
    exact (if_pos hc).trans ih
  | case5 before position c rest hname hc =>
    have hname' := (nameLength?_append_isBlank h before (List.cons_ne_nil c rest)).trans hname
    rw [List.cons_append] at hname' ⊢
    rw [firstForeign?, hname']
    exact if_neg hc

end Back

/-! ### White space in front of a text -/

/-- Whether characters are admissible depends on the one before them only as a part of a word. -/
theorem firstForeign?_eq_none_congr {before other : Option Char}
    (h : (before.map isWordChar).getD false = (other.map isWordChar).getD false) (skip position position' : Nat)
    (cs : List Char) :
    firstForeign? before skip position cs = none ↔ firstForeign? other skip position' cs = none := by
  induction cs generalizing before other skip position position' with
  | nil => exact Iff.rfl
  | cons c rest ih =>
    cases skip with
    | succ n => exact ih rfl n (position + 1) (position' + 1)
    | zero =>
      have hname : nameLength? before (c :: rest) = nameLength? other (c :: rest) := by
        have hedge : isWordEdge before (c :: rest).head? = isWordEdge other (c :: rest).head? := by
          rw [isWordEdge, isWordEdge, h]
        rw [nameLength?, nameLength?, hedge]
      rw [firstForeign?, firstForeign?, hname]
      cases nameLength? other (c :: rest) with
      | some n => exact ih rfl (n - 1) (position + 1) (position' + 1)
      | none =>
        by_cases hc : isFormulaChar c
        · simp only [hc, ↓reduceIte]
          exact ih rfl 0 (position + 1) (position' + 1)
        · simp [hc]

/-- The check passes a text just if it does with white space in front. -/
theorem firstForeign?_isBlank_append {front : List Char} (h : ∀ c ∈ front, isBlank c) (cs : List Char) :
    firstForeign? none 0 0 (front ++ cs) = none ↔ firstForeign? none 0 0 cs = none := by
  rw [firstForeign?_append fun c hc => by simp [isFormulaChar, h c hc]]
  refine firstForeign?_eq_none_congr ?_ 0 _ 0 cs
  cases hlast : front.getLast? with
  | none => rfl
  | some c => exact isWordChar_of_isBreak (isBreak_of_isBlank (h c (List.mem_of_getLast? hlast)))

/-! ### Formulas -/

/-- A text has the same terminals wherever it begins. -/
theorem spells_of_tokensFrom {position : Nat} {cs : List Char} {ts : List Token}
    (h : tokensFrom position cs = .ok ts) : Spells cs (ts.map Token.terminal) := by
  induction hn : cs.length using Nat.strongRecOn generalizing cs position ts with
  | ind n ih =>
    subst hn
    cases cs with
    | nil =>
      rw [tokensFrom] at h
      obtain rfl := Except.ok.inj h
      exact spells_nil
    | cons c rest =>
      obtain ⟨hblank, hrest⟩ | ⟨l, after, ts', hl, hafter, hts', rfl⟩ := tokensFrom_cons_eq_ok h
      · exact (ih _ (Nat.lt_succ_self _) hrest rfl).blank hblank
      · have hshorter : after.length < (c :: rest).length := by
          rw [hafter]
          exact length_lt_append (lexemeAt?_ne_nil hl) after
        rw [hafter] at hl ⊢
        exact (ih _ hshorter hts' rfl).lexeme hl

/-- **White space at the margins does not matter**: a text spells the same terminals with it and without. -/
theorem spells_append_iff {front back : List Char} (hfront : ∀ c ∈ front, isBlank c) (hback : ∀ c ∈ back, isBlank c)
    {cs : List Char} {ts : List (Terminal (List Char))} : Spells (front ++ (cs ++ back)) ts ↔ Spells cs ts := by
  have htokens (position : Nat) :
      tokensFrom position (front ++ (cs ++ back)) = tokensFrom (position + front.length) cs := by
    rw [tokensFrom_blank_append hfront, tokensFrom_append_isBlank hback]
  constructor
  · intro h
    obtain ⟨tokens, hok, rfl⟩ := h 0
    exact spells_of_tokensFrom ((htokens 0).symm.trans hok)
  · intro h position
    rw [htokens]
    exact h _

/-- Tokens are read by what they are and not by where they stand. -/
theorem ofTokens_eq_ok_of_terminals {ts us : List Token} (h : ts.map Token.terminal = us.map Token.terminal) {e : Expr}
    (hread : ofTokens ts = .ok e) : ofTokens us = .ok e := by
  obtain ⟨hpos, hlong, d, hd, hnesting, htree⟩ := ofTokens_eq_ok_iff.1 hread
  have hlength : ts.length = us.length := by simpa using congrArg List.length h
  exact ofTokens_eq_ok_iff.2 ⟨hlength ▸ hpos, hlength ▸ hlong, d, hd.trans h, hnesting, htree⟩

/-- **A text is a formula by its characters and its terminals.** Positions of tokens are left out here, so texts
that differ in white space can be compared. -/
theorem parse_eq_ok_iff_spells {source : String} {e : Expr} :
    parse source = .ok e ↔ firstForeign? none 0 0 source.toList = none ∧
      ∃ ts : List Token, Spells source.toList (ts.map Token.terminal) ∧ ofTokens ts = .ok e := by
  rw [parse, bind_eq_ok_iff]
  constructor
  · rintro ⟨ts, hts, hread⟩
    obtain ⟨hforeign, hlex⟩ := tokens_eq_ok_iff.1 hts
    exact ⟨hforeign, ts, spells_of_tokensFrom hlex, hread⟩
  · rintro ⟨hforeign, ts, hspells, hread⟩
    obtain ⟨us, hlex, hus⟩ := hspells 0
    exact ⟨us, tokens_eq_ok_iff.2 ⟨hforeign, hlex⟩, ofTokens_eq_ok_of_terminals hus.symm hread⟩

/-- The value of a text is the value of its tree, if it has one and the value is finite. -/
theorem toOption_evaluate (source : String) :
    (evaluate source).toOption = (parse source).toOption.bind fun e => e.price.toOption := by
  rw [evaluate]
  cases parse source with
  | error fault => rfl
  | ok e => rfl

/-- **White space around a text makes no difference to the number that it is as a formula.** Faults may differ,
as positions do, hence the statement is about the number. -/
theorem toOption_evaluate_append {front back : List Char} (hfront : ∀ c ∈ front, isBlank c)
    (hback : ∀ c ∈ back, isBlank c) (cs : List Char) :
    (evaluate (String.ofList (front ++ (cs ++ back)))).toOption = (evaluate (String.ofList cs)).toOption := by
  have hparse : (parse (String.ofList (front ++ (cs ++ back)))).toOption = (parse (String.ofList cs)).toOption := by
    refine toOption_congr fun e => ?_
    rw [parse_eq_ok_iff_spells, parse_eq_ok_iff_spells,
      String.toList_ofList, String.toList_ofList, firstForeign?_isBlank_append hfront,
      firstForeign?_append_isBlank hback]
    simp only [spells_append_iff hfront hback]
  rw [toOption_evaluate, toOption_evaluate, hparse]

/-- **A formula may be filled in before its ends are trimmed or after.** The literals that are put in have no
white space at their ends, and the placeholders are the same. -/
theorem toOption_evaluate_fill_trim (values : List (String × Binary64)) (source : String) :
    (evaluate (fill values (trim source))).toOption = (evaluate (fill values source)).toOption := by
  obtain ⟨front, back, hcut, hfront, hback⟩ := exists_pieces_eq source.toList
  rw [fill, fill, hcut, trim, String.toList_ofList, List.flatMap_append, List.flatMap_append,
    flatMap_fill_map_char, flatMap_fill_map_char, toOption_evaluate_append hfront hback]

end Formula
end Tariff
