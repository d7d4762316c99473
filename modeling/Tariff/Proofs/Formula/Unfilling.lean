/-
# Reading a filled text back

A text with finite values that has a value was made from a template with a tree, of which it is the value, just if none
of its placeholders is glued to a neighbour (`template_or_glued`). For then its terminals are those of the template
written out (`exists_template_of_tokens`): each operand is read as one, since behind it no digit and no point comes
(`not_isNumeric_behind`), and what lies between the operands is read as it is in the template.

So a placeholder next to a number or to another placeholder is refused, unless it is glued.
-/

import Tariff.Proofs.Formula.Gluing

namespace Tariff
namespace Formula

variable {values : List (String × Binary64)} {ps : List Piece}

namespace Piece

/-- With finite values, each piece becomes its size behind its sign. -/
theorem fill_eq_signText {p : Piece} (hv : Covers values (p :: ps)) :
    p.fill values = Decimal.signText (p.isNegative values) (p.size values) := by
  cases p with
  | char c => simp [Piece.fill, name?, chars, isNegative, size, Decimal.signText]
  | slot inside =>
    obtain ⟨s, m, hx⟩ := hv inside List.mem_cons_self
    simp only [fill_slot hx, isNegative, size, Operand.isNegative, Operand.size, hx]

/-- Digits, points and placeholders become digits and points, apart from their sign. -/
theorem isNumeric_of_mem_size {p : Piece} (hp : p.isNumeric) : ∀ c ∈ p.size values, Formula.isNumeric c := by
  intro c hc
  cases p with
  | char d =>
    obtain rfl := List.mem_singleton.1 hc
    exact hp
  | slot inside =>
    simp only [size, Operand.size] at hc
    split at hc
    · exact isNumeric_of_positional (Magnitude.literal_positional _) c hc
    · simp at hc

end Piece

/-! ### Operands at the front -/

/-- The pieces that an operand of a template is made of. -/
def Operand.pieces : Operand → List Piece
  | number text => text.map .char
  | placeholder inside => [.slot inside]

/-- An operand stands in front of pieces, and no further digit or point belongs to it. -/
structure Operand.Leads (values : List (String × Binary64)) (a : Operand) (ps : List Piece) : Prop where
  ne_nil : a.size values ≠ []
  numeric : ∀ c ∈ a.size values, isNumeric c
  whole : ∀ text, a = .number text → ∀ c ∈ (leading ps).head?, isNumeric c = false

/-- Digits, points and placeholders begin operands. -/
theorem exists_leads {p : Piece} (hp : p.isNumeric) (hv : Covers values (p :: ps)) :
    ∃ (a : Operand) (ps' : List Piece), p :: ps = a.pieces ++ ps' ∧ ps'.length < (p :: ps).length ∧
      a.Leads values ps' := by
  cases p with
  | slot inside =>
    obtain ⟨s, m, hx⟩ := hv inside List.mem_cons_self
    refine ⟨.placeholder inside, ps, rfl, Nat.lt_succ_self _, ?_, Piece.isNumeric_of_mem_size hp, by simp⟩
    simpa [Operand.size, hx] using m.literal_positional.ne_nil
  | char c =>
    have hc : isNumeric c := hp
    obtain ⟨run, rest, hcut, hrun, hrest⟩ := exists_run isNumeric (leading (.char c :: ps))
    obtain ⟨ps', hps'⟩ := exists_eq_append_of_prefix (hcut ▸ List.prefix_append run rest)
    have hne : run ≠ [] := by
      rintro rfl
      obtain rfl : rest = c :: leading ps := hcut.symm
      simp [hc] at hrest
    refine ⟨.number run, ps', hps', ?_, hne, hrun, fun _ _ => ?_⟩
    · rw [hps', List.length_append, List.length_map]
      have := List.length_pos_iff.2 hne
      omega
    · rw [hps', leading_append] at hcut
      rwa [List.append_cancel_left hcut]

/-- An operand becomes its size behind its sign. -/
theorem flatMap_fill_pieces {a : Operand} (hv : Covers values (a.pieces ++ ps)) :
    a.pieces.flatMap (Piece.fill values) = Decimal.signText (a.isNegative values) (a.size values) := by
  cases a with
  | number text => exact flatMap_fill_map_char text
  | placeholder inside => exact (List.flatMap_singleton _ _).trans (Piece.fill_eq_signText hv)

/-- The last piece of an operand. -/
theorem exists_pieces_eq_append {a : Operand} (ha : a.Leads values ps) : ∃ front p, a.pieces = front ++ [p] ∧
    p.isNumeric ∧ p.size values ⊆ a.size values ∧ (p.isSlot = false → ∃ text, a = .number text) := by
  cases a with
  | number text =>
    obtain ⟨cs, c, rfl⟩ := (List.eq_nil_or_concat text).resolve_left ha.ne_nil
    rw [List.concat_eq_append] at ha ⊢
    refine ⟨cs.map .char, .char c, by simp [Operand.pieces], ha.numeric c (by simp [Operand.size]), ?_,
      fun _ => ⟨_, rfl⟩⟩
    exact List.subset_append_right cs [c]
  | placeholder inside => exact ⟨[], .slot inside, rfl, rfl, fun _ hc => hc, by simp [Piece.isSlot]⟩

/-- **Behind an operand that is read and not glued no digit and no point comes.** If the neighbour is part of
the template, they would be one operand there; if it comes from a placeholder, the two are glued. -/
theorem not_isNumeric_behind {a : Operand} (ha : a.Leads values ps) (hv : Covers values ps)
    (hg : ¬ Glued values (a.pieces ++ ps)) {position : Nat} {ts : List Token}
    (hts : tokensFrom position (a.size values ++ ps.flatMap (Piece.fill values)) = .ok ts)
    (hs : Spaced (ts.map Token.terminal)) : ∀ c ∈ (ps.flatMap (Piece.fill values)).head?, isNumeric c = false := by
  cases ps with
  | nil => simp
  | cons q ps =>
    intro c hc
    have hfill := Piece.fill_eq_signText hv
    rw [List.flatMap_cons, hfill] at hts hc
    cases hneg : q.isNegative values with
    | true =>
      rw [hneg] at hc
      obtain rfl := Option.some.inj hc
      rfl
    | false =>
      rw [hneg] at hc hts
      cases hq : q.isNumeric with
      | false =>
        cases q with
        | slot => simp [Piece.isNumeric] at hq
        | char d =>
          obtain rfl := Option.some.inj hc
          exact hq
      | true =>
        obtain ⟨front, p, hpieces, hp, hsize, hchar⟩ := exists_pieces_eq_append ha
        have htouch : [p, q] <:+: a.pieces ++ q :: ps := ⟨front, ps, by simp [hpieces]⟩
        have hslot : p.isSlot ∨ q.isSlot := by
          cases hpslot : p.isSlot with
          | true => exact .inl rfl
          | false =>
            cases q with
            | slot => exact .inr rfl
            | char d =>
              obtain ⟨text, htext⟩ := hchar hpslot
              have := ha.whole text htext d rfl
              simp [Piece.isNumeric, this] at hq
        -- If both have a point, these are two points in one number.
        have hpoints : '.' ∈ p.size values ∧ '.' ∈ q.size values := by
          by_contra h
          exact hg (.touch hp hq hslot (Decidable.not_and_iff_not_or_not.1 h) htouch)
        exact absurd hs (not_spaced_of_points ha.numeric (Piece.isNumeric_of_mem_size hq) (hsize hpoints.1)
          hpoints.2 hts)

/-! ### Terminals -/

/-- An operand at the front of a template gives its terminal; a number has to be all digits and points that are
there. -/
theorem templateTerminals_operand {a : Operand} (ha : ∀ text, a = .number text → Numeral.Positional text ∧
    ∀ c ∈ (leading ps).head?, isNumeric c = false) :
    templateTerminals (a.pieces ++ ps) = (templateTerminals ps).map (.operand a :: ·) := by
  cases a with
  | number text =>
    obtain ⟨htext, hrest⟩ := ha text rfl
    refine templateTerminals_lexeme (l := .number text) (lexemeAt?_number htext fun c hc => ?_)
    simpa [isNumeric] using hrest c hc
  | placeholder inside => rw [Operand.pieces, List.singleton_append, templateTerminals]

/-- The sign of an operand is a token of its own. -/
theorem tokensFrom_signText {negative : Bool} {cs rest : List Char} {position : Nat} {ts : List Token}
    (h : tokensFrom position (Decimal.signText negative cs ++ rest) = .ok ts) : ∃ position' ts',
      tokensFrom position' (cs ++ rest) = .ok ts' ∧
        ts.map Token.terminal = (if negative then [.symbol .minus] else []) ++ ts'.map Token.terminal := by
  cases negative with
  | false => exact ⟨position, ts, h, rfl⟩
  | true =>
    rw [show Decimal.signText true cs ++ rest = '-' :: (cs ++ rest) from rfl, tokensFrom_minus] at h
    cases hrest : tokensFrom (position + 1) (cs ++ rest) with
    | error e => simp [hrest, Except.map] at h
    | ok ts' =>
      rw [hrest] at h
      obtain rfl := Except.ok.inj h
      exact ⟨_, ts', hrest, rfl⟩

/-- Pieces that begin with an operand are read as one. -/
theorem exists_operand_of_tokens {p : Piece} (hp : p.isNumeric) (hv : Covers values (p :: ps))
    (hg : ¬ Glued values (p :: ps)) {position : Nat} {ts : List Token}
    (hts : tokensFrom position ((p :: ps).flatMap (Piece.fill values)) = .ok ts)
    (hs : Spaced (ts.map Token.terminal)) : ∃ (a : Operand) (ps' : List Piece) (position' : Nat) (ts' : List Token),
      p :: ps = a.pieces ++ ps' ∧ ps'.length < (p :: ps).length ∧
        tokensFrom position' (ps'.flatMap (Piece.fill values)) = .ok ts' ∧
        templateTerminals (p :: ps) = (templateTerminals ps').map (.operand a :: ·) ∧
          ts.map Token.terminal =
            written (Operand.size values) (Operand.isNegative values) [.operand a] ++ ts'.map Token.terminal := by
  obtain ⟨a, ps', hcut, hlt, ha⟩ := exists_leads hp hv
  rw [hcut] at hv hg hts ⊢
  rw [List.flatMap_append, flatMap_fill_pieces hv] at hts
  obtain ⟨_, _, hsize, hsign⟩ := tokensFrom_signText hts
  rw [hsign] at hs
  have hrest := not_isNumeric_behind ha hv.drop hg hsize hs.drop
  obtain ⟨hpositional, ts', hts', rfl⟩ := tokensFrom_run ha.ne_nil ha.numeric hrest hsize hs.drop
  refine ⟨a, ps', _, ts', rfl, hcut ▸ hlt, hts', templateTerminals_operand ?_, ?_⟩
  · rintro text rfl
    exact ⟨hpositional, ha.whole text rfl⟩
  · rw [hsign]
    cases hneg : a.isNegative values <;> simp [written, Terminal.expand, hneg, Token.terminal, Lexeme.terminal]

/-- **Where no placeholder is glued, the terminals of a text that could be derived are those of its template,** written
out. -/
theorem exists_template_of_tokens : ∀ {ps : List Piece} {position : Nat} {ts : List Token},
    Covers values ps → ¬ Glued values ps →
      tokensFrom position (ps.flatMap (Piece.fill values)) = .ok ts →
      Spaced (ts.map Token.terminal) →
      (∀ text, .name text ∈ ts.map Token.terminal → IsFunctionName text) →
        ∃ us, templateTerminals ps = some us ∧
          written (Operand.size values) (Operand.isNegative values) us = ts.map Token.terminal
  | [], position, ts, hv, hg, hts, hs, hn => by
    rw [List.flatMap_nil, tokensFrom] at hts
    obtain rfl := Except.ok.inj hts
    exact ⟨[], by rw [templateTerminals], rfl⟩
  | p :: ps, position, ts, hv, hg, hts, hs, hn => by
    -- An operand comes first, or else white space, a name or a symbol, which filling in leaves as they are.
    cases hp : p.isNumeric with
    | true =>
      obtain ⟨a, ps', position', ts', hcut, hlt, hts', htemplate, hterminals⟩ :=
        exists_operand_of_tokens hp hv hg hts hs
      rw [hterminals] at hs hn ⊢
      obtain ⟨us, hus, hwritten⟩ := exists_template_of_tokens (hcut ▸ hv).drop
        (fun h => hg (hcut ▸ h.behind a.pieces)) hts' hs.drop fun text ht => hn text (List.mem_append_right _ ht)
      refine ⟨.operand a :: us, by rw [htemplate, hus]; rfl, ?_⟩
      rw [written_cons, hwritten]
    | false =>
      cases p with
      | slot => simp [Piece.isNumeric] at hp
      | char c =>
        obtain ⟨hc, hrest⟩ | ⟨l, after, ts', hl, hafter, hts', rfl⟩ := tokensFrom_cons_eq_ok hts
        · rw [templateTerminals_blank hc]
          exact exists_template_of_tokens hv.tail (fun h => hg (h.behind [.char c])) hrest hs hn
        · obtain ⟨ps', hcut, hlt, hrest, hkind⟩ := exists_lexeme_of_fill (List.forall_mem_nil _) hp hv
            (by rw [List.append_nil]; exact hl) ((List.append_nil _).trans hafter)
            fun text htext => hn text (by rw [htext]; exact List.mem_cons_self)
          rw [List.append_nil] at hrest
          subst hrest
          obtain ⟨us, hus, hwritten⟩ := exists_template_of_tokens (hcut ▸ hv).drop
            (fun h => hg (hcut ▸ h.behind _)) hts' hs.tail fun text ht => hn text (List.mem_cons_of_mem _ ht)
          have hfront : lexemeAt? (l.chars ++ leading ps') = some l := by
            rcases hkind with ⟨text, rfl, htext⟩ | ⟨s, rfl, hsymbol⟩
            · rw [← List.append_nil (ps'.flatMap _)] at hts'
              exact lexemeAt?_name htext (breaks_leading hts' (hs.next rfl))
            · exact lexemeAt?_symbol hsymbol
          refine ⟨l.inTemplate :: us, by rw [hcut, templateTerminals_lexeme hfront, hus]; rfl, ?_⟩
          rw [written_cons, hwritten]
          rcases hkind with ⟨text, rfl, -⟩ | ⟨s, rfl, -⟩ <;> rfl
termination_by ps => ps.length
decreasing_by
  all_goals simp only [List.length_cons] at *
  all_goals omega

/-! ### Whole texts -/

/-- **A template is as deep and as long as its text at most.** A text that is read and has no glued placeholder is made
from a template with a derivation whose calls fit. -/
theorem exists_sentence_of_parse {source : String} (hv : Covers values (pieces source.toList))
    (hg : ¬ Glued values (pieces source.toList)) {e : Expr} (h : parse (fill values source) = .ok e) :
    ∃ d : Sentence Operand, templateTerminals (pieces source.toList) = some d.yield ∧ d.callsFit ∧
      d.yield.length ≤ tokenLimit ∧ d.nesting ≤ nestingLimit := by
  obtain ⟨d, hderives, hfit⟩ := exists_derives_of_parse h
  obtain ⟨hlong, hdeep⟩ := (withinLimits_iff hderives).1 ((exists_parse_iff_withinLimits hderives hfit).1 ⟨e, h⟩)
  obtain ⟨-, ts, hts, hy⟩ := hderives
  rw [fill, String.toList_ofList] at hts
  obtain ⟨us, hus, hwritten⟩ := exists_template_of_tokens hv hg hts (hy ▸ d.spaced_yield)
    fun _ ht => d.isFunctionName_of_mem_yield (hy ▸ ht)
  rw [← hy] at hwritten
  obtain ⟨d', rfl, hfit', -, hdeep'⟩ :=
    d.exists_of_yield_written hwritten (signsApart_of_templateTerminals hus hg) (by simp)
  refine ⟨d', hus, hfit'.trans hfit, ?_, hdeep'.trans hdeep⟩
  exact (hwritten ▸ length_le_length_written).trans hlong

/-- **Placeholders are operands just where none is glued.** A text with finite values that has a value is made from a
template that has a tree, keeps within the limits and has this value too; or else a placeholder is glued to a neighbour,
and the template has no derivation at all. -/
theorem template_or_glued {source : String} {values : List (String × Binary64)} {x : Binary64}
    (hv : ∀ name ∈ placeholders source, ∃ y, lookup? name values = some y ∧ y.isFinite)
    (h : evaluate (fill values source) = .ok x) :
    ¬ Glued values (pieces source.toList) ∧ (∃ (d : Sentence Operand) (t : Expr),
        templateTerminals (pieces source.toList) = some d.yield ∧ d.yield.length ≤ tokenLimit ∧
          d.nesting ≤ nestingLimit ∧ d.tree? (Operand.value values) = some t ∧ t.price = .ok x) ∨
      Glued values (pieces source.toList) ∧
        ∀ d : Sentence Operand, templateTerminals (pieces source.toList) ≠ some d.yield := by
  have hcovers := covers_of_placeholders hv
  by_cases hg : Glued values (pieces source.toList)
  · exact .inr ⟨hg, fun d hd => hg.not_operandsApart hd d.operandsApart_yield⟩
  · refine .inl ⟨hg, ?_⟩
    unfold evaluate at h
    split at h
    · rename_i e hparse
      obtain ⟨d, hd, hfit, hlong, hdeep⟩ := exists_sentence_of_parse hcovers hg hparse
      obtain ⟨t, ht⟩ := Option.isSome_iff_exists.1 ((d.isSome_tree? (Operand.value values)).trans hfit)
      refine ⟨d, t, hd, hlong, hdeep, ht, ?_⟩
      -- The text is read as the tree of the template, up to signs.
      have hread := parse_eq_of_derives (derives_fill hd hcovers) (tree?_fill hd hcovers ht)
      rw [hparse] at hread
      obtain rfl : e = t.spelled := by
        split at hread
        · cases hread
        · split at hread
          · exact Except.ok.inj hread
          · cases hread
      rwa [Expr.price, t.value_spelled] at h
    · cases h

/-- A minus sign in front of a placeholder keeps it apart from the number before, so that it stays an operand. -/
theorem not_glued_difference :
    evaluate (fill [("x", .ofInt (-5))] "2 - \x7b\x7bx\x7d\x7d * 3") = .ok (.ofInt 17) ∧
      ¬ Glued [("x", .ofInt (-5))] (pieces "2 - \x7b\x7bx\x7d\x7d * 3".toList) := by
  have hv : ∀ name ∈ placeholders "2 - \x7b\x7bx\x7d\x7d * 3",
      ∃ x, lookup? name [("x", Binary64.ofInt (-5))] = some x ∧ x.isFinite :=
    finite_of_placeholders_eq (by decide +kernel) (by decide +kernel)
  have hvalue : evaluate (fill [("x", .ofInt (-5))] "2 - \x7b\x7bx\x7d\x7d * 3") = .ok (.ofInt 17) := by
    decide +kernel
  obtain ⟨hg, -⟩ | ⟨-, hnone⟩ := template_or_glued hv hvalue
  · exact ⟨hvalue, hg⟩
  · refine absurd ?_ (hnone (difference (.number ['2']) (.placeholder ['x']) (.number ['3'])))
    decide +kernel

/-- **Not every text that has a value is made from a template:** a digit in front of a placeholder becomes the first
digit of its value. -/
theorem not_forall_exists_template : ¬ ∀ (source : String) (values : List (String × Binary64)) (x : Binary64),
    (∀ name ∈ placeholders source, ∃ y, lookup? name values = some y ∧ y.isFinite) →
      evaluate (fill values source) = .ok x →
        ∃ d : Sentence Operand, templateTerminals (pieces source.toList) = some d.yield := by
  intro hall
  have hv : ∀ name ∈ placeholders "1\x7b\x7bx\x7d\x7d",
      ∃ x, lookup? name [("x", Binary64.ofInt 5)] = some x ∧ x.isFinite :=
    finite_of_placeholders_eq (by decide +kernel) (by decide +kernel)
  obtain ⟨d, hd⟩ := hall "1\x7b\x7bx\x7d\x7d" [("x", .ofInt 5)] (.ofInt 15) hv (by decide +kernel)
  have hterminals : templateTerminals (pieces "1\x7b\x7bx\x7d\x7d".toList) =
      some [.operand (.number ['1']), .operand (.placeholder ['x'])] := by
    decide +kernel
  have hspaced := d.spaced_yield
  rw [← Option.some.inj (hterminals.symm.trans hd)] at hspaced
  simp [Spaced, Terminal.isSymbol] at hspaced

/-- A negative value behind a number becomes the subtrahend of a difference. -/
example : evaluate (fill [("x", .ofInt (-5))] "2 \x7b\x7bx\x7d\x7d") = .ok (.ofInt (-3)) := by
  decide +kernel

end Formula
end Tariff
