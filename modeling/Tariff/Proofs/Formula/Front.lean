/-
# The front of a filled text

What the first token of a text with its values says of the pieces that the text was made from. Digits and points that
touch are one number if of two neighbouring tokens one is a symbol (`tokensFrom_run`), so two points among them are one
too many (`not_spaced_of_points`). A function name or a symbol is made of the characters in front of the first
placeholder (`exists_lexeme_of_fill`): behind its first character it has no digit and no sign, with which literals begin.
-/

import Tariff.Proofs.Formula.Filling

namespace Tariff
namespace Formula

/-! ### Runs of digits and points -/

/-- Digits and points. -/
def isNumeric (c : Char) : Bool := c.isDigit || c = '.'

/-- Digits, points and placeholders. -/
def Piece.isNumeric : Piece → Bool
  | char c => Formula.isNumeric c
  | slot _ => true

theorem isNumeric_of_positional {cs : List Char} (h : Numeral.Positional cs) :
    ∀ c ∈ cs, isNumeric c := by
  intro c hc
  rcases h.mem hc with hdigit | rfl
  · simp [isNumeric, hdigit]
  · rfl

/-- A digit or a point does not break a word off. -/
theorem not_isNumeric_of_isBreak {c : Char} (h : isBreak c) : isNumeric c = false := by
  have := isApart_of_isBreak h
  simp only [isApart, Bool.and_eq_true, Bool.not_eq_true', bne_iff_ne] at this
  simp [isNumeric, this.1.1]

/-- Digits and points belong to no name. -/
theorem not_isNameChar_of_isNumeric {c : Char} (h : isNumeric c) : isNameChar c = false := by
  rcases Bool.or_eq_true_iff.1 h with h | h
  · exact isNameChar_eq_false_of_isDigit h
  · obtain rfl : c = '.' := by simpa using h
    rfl

/-- Only numbers begin with a digit or a point. -/
theorem exists_number_of_isNumeric {c : Char} {rest : List Char} {l : Lexeme} (hc : isNumeric c)
    (h : lexemeAt? (c :: rest) = some l) : ∃ text, l = .number text := by
  have hname : nameAt? (c :: rest) = none := by
    have hletter := not_isNameChar_of_isNumeric hc
    have hM : c ≠ 'M' := by
      rintro rfl
      simp [isNameChar] at hletter
    simp [nameAt?, hletter, hM.symm]
  have hsymbol : symbolAt? (c :: rest) = none := by
    rw [Option.eq_none_iff_forall_ne_some]
    intro s hs
    obtain ⟨after, hafter⟩ := prefix_of_symbolAt? hs
    simp [not_isNumeric_of_isBreak (isBreak_of_symbol hafter.symm)] at hc
  rw [lexemeAt?, hname, hsymbol] at h
  split at h
  · exact ⟨_, (Option.some.inj h).symm⟩
  · simp at h

/-- And numbers begin with nothing else. -/
theorem ne_number_of_lexemeAt? {c : Char} {rest : List Char} {l : Lexeme} (hc : isNumeric c = false)
    (h : lexemeAt? (c :: rest) = some l) (text : List Char) : l ≠ .number text := by
  rintro rfl
  have hpositional := positional_of_lexemeAt? h
  obtain ⟨d, ds, rfl⟩ := List.exists_cons_of_ne_nil hpositional.ne_nil
  obtain ⟨rfl, -⟩ := List.cons_prefix_cons.1 (prefix_of_lexemeAt? h)
  simp [isNumeric_of_positional hpositional d List.mem_cons_self] at hc

/-- What begins with a digit or a point has a number as its first token. -/
theorem tokensFrom_of_isNumeric {c : Char} {rest : List Char} {position : Nat} {ts : List Token}
    (hc : isNumeric c) (h : tokensFrom position (c :: rest) = .ok ts) :
    ∃ text after ts', lexemeAt? (c :: rest) = some (.number text) ∧ c :: rest = text ++ after ∧
      tokensFrom (position + text.length) after = .ok ts' ∧ ts = ⟨.number text, position⟩ :: ts' := by
  obtain ⟨hblank, -⟩ | ⟨l, after, ts', hl, hafter, hts', rfl⟩ := tokensFrom_cons_eq_ok h
  · simp [not_isNumeric_of_isBreak (isBreak_of_isBlank hblank)] at hc
  · obtain ⟨text, rfl⟩ := exists_number_of_isNumeric hc hl
    exact ⟨text, after, ts', hl, hafter, hts', rfl⟩

/-- **Where neighbours are kept apart, digits and points that touch are one number.** If the lexer took less
than all of them, another number would follow the first one, and no symbol stands between. -/
theorem tokensFrom_run {run rest : List Char} (hne : run ≠ []) (h : ∀ c ∈ run, isNumeric c)
    (hr : ∀ c ∈ rest.head?, isNumeric c = false) {position : Nat} {ts : List Token}
    (hts : tokensFrom position (run ++ rest) = .ok ts) (hs : Spaced (ts.map Token.terminal)) :
    Numeral.Positional run ∧ ∃ ts', tokensFrom (position + run.length) rest = .ok ts' ∧
      ts = ⟨.number run, position⟩ :: ts' := by
  obtain ⟨c, cs, rfl⟩ := List.exists_cons_of_ne_nil hne
  obtain ⟨text, after, ts', hl, hafter, hts', rfl⟩ :=
    tokensFrom_of_isNumeric (h c List.mem_cons_self) hts
  have hpositional := positional_of_lexemeAt? hl
  have hfront : text <+: c :: cs := by
    refine prefix_of_prefix_append (prefix_of_lexemeAt? hl) fun d hd hm => ?_
    have := isNumeric_of_positional hpositional d hm
    simp [hr d hd] at this
  obtain ⟨more, hmore⟩ := hfront
  obtain rfl : after = more ++ rest := by
    have : text ++ after = text ++ (more ++ rest) := by
      rw [← List.append_assoc, hmore]
      exact hafter.symm
    exact List.append_cancel_left this
  cases more with
  | nil =>
    obtain rfl : text = c :: cs := by simpa using hmore
    exact ⟨hpositional, ts', hts', rfl⟩
  | cons d more =>
    -- A second number would stand next to the first one.
    have hd : isNumeric d := h d (hmore ▸ List.mem_append_right _ List.mem_cons_self)
    obtain ⟨_, _, ts'', -, -, -, rfl⟩ := tokensFrom_of_isNumeric hd hts'
    simp [Spaced, Token.terminal, Lexeme.terminal, Terminal.isSymbol] at hs

/-- There is one point in positional notation. -/
theorem digits_of_positional {before after : List Char}
    (h : Numeral.Positional (before ++ '.' :: after)) :
    (∀ c ∈ before, c.isDigit) ∧ ∀ c ∈ after, c.isDigit := by
  have hpoint {cs : List Char} (hcs : ∀ c ∈ cs, c.isDigit) : '.' ∉ cs := fun hm => by
    simpa using hcs '.' hm
  generalize htext : before ++ '.' :: after = text at h
  cases h with
  | whole hne h => exact absurd (htext ▸ by simp) (hpoint h)
  | @point digits places hne h h' =>
    rcases List.append_eq_append_iff.1 htext with ⟨_ | ⟨d, ds⟩, hdigits, hrest⟩ | ⟨_ | ⟨d, ds⟩, hbefore, hrest⟩
    · obtain rfl : digits = before := by simpa using hdigits
      obtain rfl : after = places := by simpa using hrest
      exact ⟨h, h'⟩
    · obtain rfl : '.' = d := (List.cons.inj hrest).1
      exact absurd (hdigits ▸ by simp) (hpoint h)
    · obtain rfl : before = digits := by simpa using hbefore
      obtain rfl : places = after := by simpa using hrest
      exact ⟨h, h'⟩
    · obtain rfl := (List.cons.inj hrest).2
      exact absurd (by simp) (hpoint h')

/-- **Two points that digits join cannot be read,** since a number has one. The second point would begin a
number of its own, right behind the first. -/
theorem not_spaced_of_points {run run' rest : List Char} (h : ∀ c ∈ run, isNumeric c)
    (h' : ∀ c ∈ run', isNumeric c) (hpoint : '.' ∈ run) (hpoint' : '.' ∈ run') {position : Nat} {ts : List Token}
    (hts : tokensFrom position (run ++ (run' ++ rest)) = .ok ts) : ¬ Spaced (ts.map Token.terminal) := by
  intro hs
  obtain ⟨more, rest, rfl, hmore, hrest⟩ := exists_run isNumeric rest
  have hall : ∀ c ∈ run ++ (run' ++ more), isNumeric c := by
    intro c hc
    simp only [List.mem_append] at hc
    rcases hc with hc | hc | hc
    · exact h c hc
    · exact h' c hc
    · exact hmore c hc
  have hne : run ++ (run' ++ more) ≠ [] := List.append_ne_nil_of_left_ne_nil (List.ne_nil_of_mem hpoint) _
  rw [← List.append_assoc run', ← List.append_assoc run] at hts
  obtain ⟨hpositional, -⟩ := tokensFrom_run hne hall hrest hts hs
  obtain ⟨before, after, rfl⟩ := List.append_of_mem hpoint
  rw [List.append_assoc, List.cons_append] at hpositional
  have hdigit := (digits_of_positional hpositional).2 '.' (by simp [hpoint'])
  exact absurd hdigit (by decide)

/-! ### Whole texts

White space may follow a text, so that what holds of it holds of the text without white space at its
ends. -/

variable {values : List (String × Binary64)} {ps : List Piece} {blanks : List Char}

/-- White space alone has no tokens. -/
theorem tokensFrom_blanks (hb : ∀ c ∈ blanks, isBlank c) (position : Nat) :
    tokensFrom position blanks = .ok [] := by
  induction blanks generalizing position with
  | nil => rw [tokensFrom]
  | cons c blanks ih =>
    rw [tokensFrom_blank (hb c List.mem_cons_self)]
    exact ih (fun c hc => hb c (List.mem_cons_of_mem _ hc)) _

/-- In front of the first placeholder a word breaks before a symbol. -/
theorem breaks_leading {position : Nat} {ts : List Token}
    (hts : tokensFrom position (ps.flatMap (Piece.fill values) ++ blanks) = .ok ts)
    (hs : ∀ t ∈ (ts.map Token.terminal).head?, t.isSymbol) : Breaks (leading ps) := by
  match ps with
  | [] => simp [Breaks, leading]
  | .slot _ :: _ => simp [Breaks, leading]
  | .char c :: ps =>
    rintro _ ⟨⟩
    obtain ⟨hc, -⟩ | ⟨l, after, ts', hl, hafter, -, rfl⟩ := tokensFrom_cons_eq_ok hts
    · exact isBreak_of_isBlank hc
    · cases l with
      | number => simp [Token.terminal, Lexeme.terminal, Terminal.isSymbol] at hs
      | name => simp [Token.terminal, Lexeme.terminal, Terminal.isSymbol] at hs
      | symbol s => exact isBreak_of_symbol hafter

/-- Behind their first character names and symbols have none that a literal begins with. -/
theorem isSeam_eq_false_of_mem_tail {l : Lexeme} {c : Char} {cs : List Char} (hcs : l.chars = c :: cs)
    (hkind : (∃ text, l = .name text ∧ IsFunctionName text) ∨ ∃ s, l = .symbol s) :
    ∀ d ∈ cs, isSeam d = false := by
  have hall : l.chars.tail.all fun d => !isSeam d := by
    obtain ⟨text, rfl, htext⟩ | ⟨s, rfl⟩ := hkind
    · have hnames : ∀ text ∈ spellings, text.tail.all fun d => !isSeam d := by decide +kernel
      exact hnames text htext.mem_spellings
    · cases s <;> decide
  rw [hcs] at hall
  exact fun d hd => by simpa using List.all_eq_true.1 hall d hd

/-- Pieces whose text begins with a name or a symbol begin with its characters. -/
theorem exists_lexeme_of_fill (hb : ∀ c ∈ blanks, isBlank c) {c : Char} (hc : isNumeric c = false)
    (hv : Covers values (.char c :: ps)) {l : Lexeme} {after : List Char}
    (hl : lexemeAt? ((Piece.char c :: ps).flatMap (Piece.fill values) ++ blanks) = some l)
    (hafter : (Piece.char c :: ps).flatMap (Piece.fill values) ++ blanks = l.chars ++ after)
    (hn : ∀ text, l = .name text → IsFunctionName text) :
    ∃ ps', .char c :: ps = l.chars.map Piece.char ++ ps' ∧ ps'.length < (Piece.char c :: ps).length ∧
      after = ps'.flatMap (Piece.fill values) ++ blanks ∧
        ((∃ text, l = .name text ∧ IsFunctionName text) ∨
          ∃ s, l = .symbol s ∧ symbolAt? (s.chars ++ leading ps') = some s) := by
  -- The lexeme does not begin with a digit or a point.
  have hkind : (∃ text, l = .name text ∧ IsFunctionName text) ∨ ∃ s, l = .symbol s := by
    cases l with
    | number text => exact absurd rfl (ne_number_of_lexemeAt? hc hl text)
    | name text => exact .inl ⟨text, rfl, hn text rfl⟩
    | symbol s => exact .inr ⟨s, rfl⟩
  obtain ⟨d, cs, hcs⟩ := List.exists_cons_of_ne_nil (lexemeAt?_ne_nil hl)
  obtain ⟨tail, htail, hseam⟩ := exists_fill_eq_leading_append hv.tail hb
  have htext : c :: (leading ps ++ tail) = d :: (cs ++ after) := by
    rw [← htail, ← List.cons_append (a := d), ← hcs, ← hafter]
    rfl
  obtain ⟨rfl, hrest⟩ := List.cons.inj htext
  -- It ends in front of the first placeholder: what is filled in begins with none of its characters.
  have hfront : cs <+: leading ps := by
    refine prefix_of_prefix_append (hrest ▸ List.prefix_append cs after) fun a ha hm => ?_
    have hseam := hseam a ha
    simp [isSeam_eq_false_of_mem_tail hcs hkind a hm] at hseam
  obtain ⟨ps', rfl⟩ := exists_eq_append_of_prefix hfront
  have hcut : .char c :: (cs.map Piece.char ++ ps') = l.chars.map Piece.char ++ ps' := by rw [hcs]; rfl
  rw [hcut, List.flatMap_append, flatMap_fill_map_char, List.append_assoc] at hafter
  obtain rfl := List.append_cancel_left hafter
  refine ⟨ps', hcut, ?_, rfl, hkind.imp_right ?_⟩
  · rw [List.length_cons, List.length_append]
    omega
  · rintro ⟨s, rfl⟩
    rw [hcut, List.flatMap_append, flatMap_fill_map_char, List.append_assoc] at hl
    refine ⟨s, rfl, ?_⟩
    rw [← symbolAt?_fill s (hv.tail.drop) hb]
    exact symbolAt?_of_lexemeAt? hl

end Formula
end Tariff
