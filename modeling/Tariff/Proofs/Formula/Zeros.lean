/-
# Texts at zero

A text with placeholders may be looked at with every placeholder at zero. If it has tokens then, and of
two neighbours among them one is a symbol, it is cut (`cut_of_zeros`), so that it has tokens with other
values too.

The literal of zero has a point, and next to another number there is none that could be read. So digits,
points and placeholders that touch are a single number at zero: digits with at most one point or one
placeholder among them, but not both.
-/

import Tariff.Proofs.Formula.Front

namespace Tariff
namespace Formula

/-! ### Runs of pieces -/

/-- Every placeholder is at zero. -/
abbrev AtZero := EverySlot (· = some .zero)

variable {values : List (String × Binary64)} {ps run : List Piece}

/-- At zero every placeholder has a finite value. -/
theorem AtZero.covers (h : AtZero values ps) : Covers values ps := fun inside hi => ⟨false, .zero, h inside hi⟩

/-- Zero is put in with a point and a place behind it. -/
theorem literal_zero : Magnitude.zero.literal = ['0', '.', '0'] := by decide +kernel

/-- A placeholder at zero becomes this literal, without a sign. -/
theorem AtZero.fill_slot {inside : List Char} (h : AtZero values (.slot inside :: ps)) :
    Piece.fill values (.slot inside) = ['0', '.', '0'] := by
  rw [Formula.fill_slot (h inside List.mem_cons_self), Decimal.signText, literal_zero]
  rfl

theorem fill_ne_nil {p : Piece} (h : AtZero values (p :: ps)) : Piece.fill values p ≠ [] := by
  cases p with
  | char c => exact List.cons_ne_nil c []
  | slot inside => simp [h.fill_slot]

/-- A run of digits, points and placeholders is digits and points at zero. -/
theorem isNumeric_fill (hr : ∀ p ∈ run, p.isNumeric) (hz : AtZero values run) :
    ∀ c ∈ run.flatMap (Piece.fill values), isNumeric c := by
  induction run with
  | nil => simp
  | cons p run ih =>
    intro c hc
    rcases List.mem_append.1 (List.flatMap_cons ▸ hc) with hc | hc
    · cases p with
      | char d =>
        obtain rfl : c = d := by simpa [Piece.fill, Piece.name?, Piece.chars] using hc
        exact hr (.char c) List.mem_cons_self
      | slot inside =>
        have hzero : ['0', '.', '0'].all isNumeric := by decide
        exact List.all_eq_true.1 hzero c (hz.fill_slot ▸ hc)
    · exact ih (fun p hp => hr p (List.mem_cons_of_mem _ hp)) hz.tail c hc

/-- Pieces whose text at zero is digits are digits. -/
theorem exists_eq_map_char (hz : AtZero values run)
    (h : ∀ c ∈ run.flatMap (Piece.fill values), c.isDigit) : ∃ cs : List Char, run = cs.map .char := by
  induction run with
  | nil => exact ⟨[], rfl⟩
  | cons p run ih =>
    rw [List.flatMap_cons] at h
    obtain ⟨cs, rfl⟩ := ih hz.tail fun c hc => h c (List.mem_append_right _ hc)
    cases p with
    | char c => exact ⟨c :: cs, rfl⟩
    | slot inside =>
      have := h '.' (List.mem_append_left _ (by rw [hz.fill_slot]; decide))
      simp at this

/-- A run is characters, or characters and then a placeholder. -/
theorem exists_leading (ps : List Piece) : ∃ (cs : List Char) (ps' : List Piece), ps = cs.map .char ++ ps' ∧
    (ps' = [] ∨ ∃ inside rest, ps' = .slot inside :: rest) := by
  induction ps with
  | nil => exact ⟨[], [], rfl, .inl rfl⟩
  | cons p ps ih =>
    cases p with
    | char c =>
      obtain ⟨cs, ps', rfl, h⟩ := ih
      exact ⟨c :: cs, ps', rfl, h⟩
    | slot inside => exact ⟨[], _, rfl, .inr ⟨inside, ps, rfl⟩⟩

/-- **A run that is a number at zero** is a number, or one placeholder between digits. With a second point, from
a digit run or from another placeholder, it would be no number at zero. -/
theorem cut_run (hz : AtZero values run)
    (h : Numeral.Positional (run.flatMap (Piece.fill values))) {ts : List (Terminal Slotted)}
    (he : Ends ps) (hcut : Cut ps ts) : ∃ a : Slotted, Cut (run ++ ps) (.operand a :: ts) ∧
      a.spell values = [.operand (run.flatMap (Piece.fill values))] := by
  obtain ⟨cs, run', rfl, rfl | ⟨inside, rest, rfl⟩⟩ := exists_leading run
  · rw [List.append_nil, flatMap_fill_map_char] at h ⊢
    exact ⟨.number cs, .number h he hcut, rfl⟩
  · have hslot : AtZero values (.slot inside :: rest) := hz.drop
    have htext : (cs.map Piece.char ++ .slot inside :: rest).flatMap (Piece.fill values) =
        (cs ++ ['0']) ++ '.' :: ('0' :: rest.flatMap (Piece.fill values)) := by
      rw [List.flatMap_append, flatMap_fill_map_char, List.flatMap_cons, hslot.fill_slot]
      simp
    rw [htext] at h
    obtain ⟨hbefore, hafter⟩ := digits_of_positional h
    obtain ⟨after, rfl⟩ := exists_eq_map_char hslot.tail fun c hc => hafter c (List.mem_cons_of_mem _ hc)
    rw [flatMap_fill_map_char] at hafter
    refine ⟨.slot cs inside after, ?_, ?_⟩
    · rw [List.append_assoc, List.cons_append]
      exact .slot (fun c hc => hbefore c (List.mem_append_left _ hc))
        (fun c hc => hafter c (List.mem_cons_of_mem _ hc)) he hcut
    · rw [htext, flatMap_fill_map_char]
      simp [Slotted.spell, hslot inside List.mem_cons_self, Binary64.zero, literal_zero]

/-! ### Whole texts -/

variable {blanks : List Char}

/-- A word breaks in front of a symbol. -/
theorem ends_of_zeros (hz : AtZero values ps) {position : Nat} {ts : List Token}
    (hts : tokensFrom position (ps.flatMap (Piece.fill values) ++ blanks) = .ok ts)
    (hs : ∀ t ∈ (ts.map Token.terminal).head?, t.isSymbol) : Ends ps := by
  match ps with
  | [] => simp [Ends]
  | .slot inside :: ps =>
    rw [List.flatMap_cons, hz.fill_slot] at hts
    obtain ⟨_, _, _, -, -, -, rfl⟩ := tokensFrom_of_isNumeric (c := '0') rfl hts
    simp [Token.terminal, Lexeme.terminal, Terminal.isSymbol] at hs
  | .char c :: ps =>
    rintro _ ⟨⟩
    exact ⟨c, rfl, breaks_leading hts hs c rfl⟩

/-- Where no digit, point or placeholder comes next, none comes in the text. -/
theorem not_isNumeric_head?_fill (hb : ∀ c ∈ blanks, isBlank c)
    (h : ∀ p ∈ ps.head?, p.isNumeric = false) :
    ∀ c ∈ (ps.flatMap (Piece.fill values) ++ blanks).head?, isNumeric c = false := by
  intro c hc
  cases ps with
  | nil => exact not_isNumeric_of_isBreak (isBreak_of_isBlank (hb c (List.mem_of_mem_head? hc)))
  | cons p ps =>
    have hp := h p rfl
    cases p with
    | slot => simp [Piece.isNumeric] at hp
    | char d =>
      obtain rfl : c = d := by simpa [Piece.fill, Piece.name?, Piece.chars] using hc.symm
      exact hp

/-- Pieces that begin with a digit, a point or a placeholder begin with a run that is a number. -/
theorem exists_run_of_zeros (hb : ∀ c ∈ blanks, isBlank c) {p : Piece} (hp : p.isNumeric)
    (hz : AtZero values (p :: ps)) {position : Nat} {ts : List Token}
    (hts : tokensFrom position ((p :: ps).flatMap (Piece.fill values) ++ blanks) = .ok ts)
    (hs : Spaced (ts.map Token.terminal)) : ∃ run ps' position' ts', p :: ps = run ++ ps' ∧
      ps'.length < (p :: ps).length ∧ Numeral.Positional (run.flatMap (Piece.fill values)) ∧
        tokensFrom position' (ps'.flatMap (Piece.fill values) ++ blanks) = .ok ts' ∧
          ts = ⟨.number (run.flatMap (Piece.fill values)), position⟩ :: ts' := by
  obtain ⟨run, ps', rfl, hrun, hrest⟩ := exists_run Piece.isNumeric ps
  have hnumeric : ∀ q ∈ p :: run, q.isNumeric := List.forall_mem_cons.2 ⟨hp, hrun⟩
  have hne : (p :: run).flatMap (Piece.fill values) ≠ [] := by
    rw [List.flatMap_cons]
    exact List.append_ne_nil_of_left_ne_nil (fill_ne_nil hz) _
  rw [← List.cons_append] at hz hts ⊢
  rw [List.flatMap_append, List.append_assoc] at hts
  obtain ⟨hpositional, ts', hts', rfl⟩ :=
    tokensFrom_run hne (isNumeric_fill hnumeric hz.left) (not_isNumeric_head?_fill hb hrest) hts hs
  refine ⟨p :: run, ps', _, ts', rfl, ?_, hpositional, hts', rfl⟩
  rw [List.length_append, List.length_cons]
  omega

/-- **A text whose tokens at zero could be derived is cut.** So what was checked at zero can be said of any
other finite values: the places where lexemes end are the same. -/
theorem cut_of_zeros (hb : ∀ c ∈ blanks, isBlank c) : ∀ {ps : List Piece} {position : Nat}
    {ts : List Token}, AtZero values ps →
      tokensFrom position (ps.flatMap (Piece.fill values) ++ blanks) = .ok ts →
      Spaced (ts.map Token.terminal) →
      (∀ text, .name text ∈ ts.map Token.terminal → IsFunctionName text) →
        ∃ us, Cut ps us ∧
          ts.map Token.terminal = us.flatMap (Terminal.expand (Slotted.spell values))
  | [], position, ts, hz, hts, hs, hn => by
    obtain rfl := Except.ok.inj ((tokensFrom_blanks hb position).symm.trans hts)
    exact ⟨[], .nil, rfl⟩
  | p :: ps, position, ts, hz, hts, hs, hn => by
    cases hp : p.isNumeric with
    | true =>
      -- Digits, points and placeholders up to the next other piece are one number at zero.
      obtain ⟨run, ps', position', ts', hcut, hlt, hpositional, hts', rfl⟩ :=
        exists_run_of_zeros hb hp hz hts hs
      have hz' : AtZero values ps' := (hcut ▸ hz).drop
      have hends : Ends ps' := ends_of_zeros hz' hts' (hs.next rfl)
      obtain ⟨us, hus, hterminals⟩ := cut_of_zeros hb hz' hts' hs.tail
        fun text ht => hn text (List.mem_cons_of_mem _ ht)
      obtain ⟨a, ha, hspell⟩ := cut_run ((hcut ▸ hz).left) hpositional hends hus
      refine ⟨_, hcut ▸ ha, ?_⟩
      rw [List.map_cons, hterminals, List.flatMap_cons, Terminal.expand, hspell]
      rfl
    | false =>
      cases p with
      | slot => simp [Piece.isNumeric] at hp
      | char c =>
        obtain ⟨hc, hrest⟩ | ⟨l, after, ts', hl, hafter, hts', rfl⟩ := tokensFrom_cons_eq_ok hts
        · obtain ⟨us, hus, hterminals⟩ := cut_of_zeros hb hz.tail hrest hs hn
          exact ⟨us, .blank hc hus, hterminals⟩
        · -- A name or a symbol, all of which stands in the template as it is.
          obtain ⟨ps', hcut, hlt, rfl, hkind⟩ := exists_lexeme_of_fill hb hp hz.covers hl hafter
            fun text htext => hn text (htext ▸ List.mem_cons_self)
          have hz' : AtZero values ps' := (hcut ▸ hz).drop
          obtain ⟨us, hus, hterminals⟩ := cut_of_zeros hb hz' hts' hs.tail
            fun text ht => hn text (List.mem_cons_of_mem _ ht)
          rw [hcut, List.map_cons, hterminals]
          rcases hkind with ⟨text, rfl, htext⟩ | ⟨s, rfl, hsymbol⟩
          · exact ⟨_, .name htext (ends_of_zeros hz' hts' (hs.next rfl)) hus, rfl⟩
          · exact ⟨_, .symbol hsymbol hus, rfl⟩
termination_by ps => ps.length
decreasing_by
  all_goals simp only [List.length_cons] at *
  all_goals omega

end Formula
end Tariff
