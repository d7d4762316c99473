/-
# Templates

A text with placeholders has a reading of its own, the *template*: each placeholder is one operand and
stands where a number may stand (`templateTerminals`). Filling in is hygienic: where the template has a
tree, the text with finite values filled in has the same one, up to the sign of a negative value, which
becomes an operator in front of its size (`Expr.spelled`); so it also has the same number.

| template | value | text | tree |
| --- | --- | --- | --- |
| `a - x` with `x` a placeholder | `2` | `a - 2.0` | `a - 2` |
| | `-2` | `a - -2.0` | `a - (-2)` |
| `x * b` | `-0.0` | `-0.0 * b` | `(-0) * b` |

A digit that touches a placeholder leaves the template without a tree, since it is an operand next to
another.
-/

import Tariff.Formula
import Tariff.Proofs.Formula.Acceptance
import Tariff.Proofs.Formula.Filling
import Tariff.Proofs.Formula.Substitution

namespace Tariff
namespace Formula

/-- An operand of a template. -/
inductive Operand where
  | number (text : List Char)
  | placeholder (inside : List Char)
  deriving DecidableEq, Repr

/-- A lexeme of the text between placeholders. -/
def Lexeme.inTemplate : Lexeme → Terminal Operand
  | number text => .operand (.number text)
  | name text => .name text
  | symbol s => .symbol s

/-- The terminals of a template, if there is a lexeme everywhere between its placeholders. -/
def templateTerminals (ps : List Piece) : Option (List (Terminal Operand)) :=
  match ps with
  | [] => some []
  | .slot inside :: rest => (templateTerminals rest).map (.operand (.placeholder inside) :: ·)
  | .char c :: rest =>
    if isBlank c then templateTerminals rest
    else
      match h : lexemeAt? (c :: leading rest) with
      | none => none
      | some l =>
        have : 0 < l.chars.length := List.length_pos_iff.2 (lexemeAt?_ne_nil h)
        (templateTerminals ((.char c :: rest).drop l.chars.length)).map (l.inTemplate :: ·)
termination_by ps.length
decreasing_by
  · simp
  · simp
  · simp only [List.length_drop, List.length_cons]
    omega

/-- What an operand of a template stands for. -/
def Operand.value (values : List (String × Binary64)) : Operand → Binary64
  | number text => numberValue text
  | placeholder inside => (lookup? (String.ofList (trimChars inside)) values).getD .nan

/-! ### Cutting a template -/

/-- A placeholder of a template has no digits that touch it. -/
def Operand.slotted : Operand → Slotted
  | number text => .number text
  | placeholder inside => .slot [] inside []

/-- The first step of reading a template that has terminals. -/
theorem templateTerminals_char {c : Char} {rest : List Piece} {ts : List (Terminal Operand)}
    (h : templateTerminals (.char c :: rest) = some ts) :
    isBlank c ∧ templateTerminals rest = some ts ∨
      ∃ l after ts', lexemeAt? (l.chars ++ leading after) = some l ∧
        .char c :: rest = l.chars.map .char ++ after ∧ after.length < (Piece.char c :: rest).length ∧
          templateTerminals after = some ts' ∧ ts = l.inTemplate :: ts' := by
  rw [templateTerminals] at h
  split at h
  · exact .inl ⟨‹_›, h⟩
  · right
    split at h
    · simp at h
    · rename_i l hl
      have hfront : l.chars <+: leading (.char c :: rest) := prefix_of_lexemeAt? hl
      -- The lexeme ends in front of the first placeholder, so it can be cut off the pieces.
      obtain ⟨after, hafter⟩ := exists_eq_append_of_prefix hfront
      obtain ⟨ts', hts', rfl⟩ := Option.map_eq_some_iff.1 h
      have hleading : c :: leading rest = l.chars ++ leading after := by
        rw [← leading_append, ← hafter, leading]
      have hdrop : (.char c :: rest : List Piece).drop l.chars.length = after := by
        rw [hafter]
        exact List.drop_left' (by rw [List.length_map])
      have hlt : after.length < (Piece.char c :: rest).length := by
        rw [hafter, List.length_append, List.length_map]
        have := List.length_pos_iff.2 (lexemeAt?_ne_nil hl)
        omega
      rw [hdrop] at hts'
      exact ⟨l, after, ts', hleading ▸ hl, hafter, hlt, hts', rfl⟩

/-- White space in a template is passed over. -/
theorem templateTerminals_blank {c : Char} (hc : isBlank c) (ps : List Piece) :
    templateTerminals (.char c :: ps) = templateTerminals ps := by
  rw [templateTerminals, if_pos hc]

/-- A lexeme at the front of a template gives its terminal, and the rest is cut behind it. -/
theorem templateTerminals_lexeme {ps : List Piece} {l : Lexeme} (hl : lexemeAt? (l.chars ++ leading ps) = some l) :
    templateTerminals (l.chars.map .char ++ ps) = (templateTerminals ps).map (l.inTemplate :: ·) := by
  obtain ⟨c, cs, hcs⟩ := List.exists_cons_of_ne_nil (lexemeAt?_ne_nil hl)
  have hleading : c :: leading (cs.map .char ++ ps) = l.chars ++ leading ps := by rw [leading_append, hcs]; rfl
  have hdrop : (l.chars.map Piece.char ++ ps).drop l.chars.length = ps := List.drop_left' (by rw [List.length_map])
  have hpieces : l.chars.map Piece.char ++ ps = .char c :: (cs.map .char ++ ps) := by rw [hcs]; rfl
  have hblank : isBlank c = false := isBlank_of_lexemeAt? (hleading ▸ hl)
  rw [hpieces] at hdrop ⊢
  rw [templateTerminals, if_neg (by simp [hblank])]
  split
  · rename_i hnone
    rw [hleading, hl] at hnone
    simp at hnone
  · rename_i l' hl'
    rw [hleading, hl] at hl'
    obtain rfl := Option.some.inj hl'
    rw [hdrop]

/-- A word breaks in front of a symbol. -/
theorem ends_of_templateTerminals {ps : List Piece} {ts : List (Terminal Operand)}
    (h : templateTerminals ps = some ts) (hs : ∀ t ∈ ts.head?, t.isSymbol) : Ends ps := by
  match ps with
  | [] => simp [Ends]
  | .slot inside :: rest =>
    rw [templateTerminals] at h
    obtain ⟨ts', -, rfl⟩ := Option.map_eq_some_iff.1 h
    simp [Terminal.isSymbol] at hs
  | .char c :: rest =>
    rintro _ ⟨⟩
    refine ⟨c, rfl, ?_⟩
    obtain ⟨hc, -⟩ | ⟨l, after, ts', hl, hafter, -, -, rfl⟩ := templateTerminals_char h
    · exact isBreak_of_isBlank hc
    · cases l with
      | number => simp [Lexeme.inTemplate, Terminal.isSymbol] at hs
      | name => simp [Lexeme.inTemplate, Terminal.isSymbol] at hs
      | symbol s =>
        have hleading := congrArg leading hafter
        rw [leading_append] at hleading
        exact isBreak_of_symbol hleading

/-- **A template whose terminals could be derived is cut.** In a derivation of two neighbours one is a symbol,
which rules out all places where a lexeme might run into the next. -/
theorem cut_of_templateTerminals : ∀ {ps : List Piece} {ts : List (Terminal Operand)},
    templateTerminals ps = some ts → Spaced ts → (∀ text, .name text ∈ ts → IsFunctionName text) →
      Cut ps (ts.map (Terminal.map Operand.slotted))
  | [], ts, h, _, _ => by
    rw [templateTerminals] at h
    obtain rfl := Option.some.inj h
    exact .nil
  | .slot inside :: rest, ts, h, hs, hn => by
    rw [templateTerminals] at h
    obtain ⟨ts', hts', rfl⟩ := Option.map_eq_some_iff.1 h
    exact .slot (List.forall_mem_nil _) (List.forall_mem_nil _)
      (ends_of_templateTerminals hts' (hs.next rfl))
      (cut_of_templateTerminals hts' hs.tail fun text ht => hn text (List.mem_cons_of_mem _ ht))
  | .char c :: rest, ts, h, hs, hn => by
    obtain ⟨hc, hrest⟩ | ⟨l, after, ts', hl, hafter, hlt, hts', rfl⟩ := templateTerminals_char h
    · exact .blank hc (cut_of_templateTerminals hrest hs hn)
    · have hcut := cut_of_templateTerminals hts' hs.tail
        fun text ht => hn text (List.mem_cons_of_mem _ ht)
      rw [hafter]
      cases l with
      | number text =>
        exact .number (positional_of_lexemeAt? hl) (ends_of_templateTerminals hts' (hs.next rfl)) hcut
      | name text =>
        exact .name (hn text List.mem_cons_self) (ends_of_templateTerminals hts' (hs.next rfl)) hcut
      | symbol s => exact .symbol (symbolAt?_of_lexemeAt? hl) hcut
termination_by ps => ps.length
decreasing_by
  all_goals simp only [List.length_cons] at *
  all_goals omega

/-! ### Spelling its operands -/

/-- A number lexeme is not negative, so nothing has to be done to spell it. -/
theorem spelled_numberValue (text : List Char) :
    (Expr.number (numberValue text)).spelled = .number (numberValue text) := by
  match h : numberValue text with
  | .finite false m => rfl
  | .infinite s => rfl
  | .nan => rfl
  | .finite true m =>
    unfold numberValue at h
    cases hd : Numeral.decimal? false text with
    | none => simp [hd] at h
    | some d =>
      have hsign := Decimal.negative_of_toBinary64 (by simpa [hd] using h)
      simp [Numeral.negative_of_decimal? hd] at hsign

/-- An operand of a template with its value filled in. -/
def Operand.unit (values : List (String × Binary64)) : Operand → Parse (.tier 6)
  | number text => .unsigned (.operand text)
  | placeholder inside =>
    match lookup? (String.ofList (trimChars inside)) values with
    | some (.finite false m) => .unsigned (.operand m.literal)
    | some (.finite true m) => .signed .minus .minus rfl (.unsigned (.operand m.literal))
    | _ => .unsigned (.operand [])

/-- An operand is a number, or a placeholder with a finite value. -/
def Operand.IsCovered (values : List (String × Binary64)) : Operand → Prop
  | number _ => True
  | placeholder inside =>
    ∃ s m, lookup? (String.ofList (trimChars inside)) values = some (.finite s m)

variable {values : List (String × Binary64)}

/-- The unit of an operand with a finite value has the tree of that value, its sign spelled out. -/
theorem tree?_unit {a : Operand} (h : a.IsCovered values) :
    (a.unit values).tree? numberValue = some (Expr.number (a.value values)).spelled := by
  cases a with
  | number text =>
    rw [Operand.value, spelled_numberValue]
    rfl
  | placeholder inside =>
    obtain ⟨s, m, hx⟩ := h
    cases s with
    | false =>
      simp [Operand.unit, Operand.value, hx, Derivation.tree?, Magnitude.numberValue_literal, Expr.spelled]
    | true =>
      simp [Operand.unit, Operand.value, hx, Derivation.tree?, Magnitude.numberValue_literal, Expr.spelled]

/-- The unit of an operand derives what is filled in for it. -/
theorem yield_unit {a : Operand} (h : a.IsCovered values) :
    (a.unit values).yield = a.slotted.spell values := by
  cases a with
  | number text => rfl
  | placeholder inside =>
    obtain ⟨s, m, hx⟩ := h
    cases s with
    | false => simp [Operand.unit, Operand.slotted, Slotted.spell, hx, Derivation.yield]
    | true => simp [Operand.unit, Operand.slotted, Slotted.spell, hx, Derivation.yield]

/-! ### Filling in -/

/-- The operands of a template have values. -/
theorem isCovered_of_mem {ps : List Piece} {ts : List (Terminal Operand)}
    (h : Cut ps (ts.map (Terminal.map Operand.slotted))) (hv : Covers values ps) {a : Operand}
    (ha : .operand a ∈ ts) : a.IsCovered values := by
  cases a with
  | number => trivial
  | placeholder inside => exact hv inside (h.slot_mem (List.mem_map_of_mem ha))

/-- **A template with values filled in is derived as the template is.** In the derivation of the template each
operand is replaced by its unit: a number, or a sign and a number. -/
theorem derives_fill {source : String} {d : Sentence Operand}
    (hd : templateTerminals (pieces source.toList) = some d.yield)
    (hv : Covers values (pieces source.toList)) :
    Derives (fill values source) (d.refill (Operand.unit values)) := by
  have hcut := cut_of_templateTerminals hd d.spaced_yield fun _ => d.isFunctionName_of_mem_yield
  obtain ⟨ts, hts, hterminals⟩ := hcut.spells hv 0
  have hexpand : ∀ t ∈ d.yield, (t.map Operand.slotted).expand (Slotted.spell values) =
      t.expand fun a => (a.unit values).yield := by
    intro t ht
    cases t with
    | operand a => exact (yield_unit (isCovered_of_mem hcut hv ht)).symm
    | name => rfl
    | symbol => rfl
  rw [Derives, fill, String.toList_ofList]
  refine ⟨hcut.firstForeign?_fill hv (.inr rfl) 0, ts, hts, ?_⟩
  rw [hterminals, Derivation.yield_refill, List.flatMap_map, List.flatMap_def, List.flatMap_def,
    List.map_congr_left hexpand]

/-- And its tree is the one of the template, up to signs. -/
theorem tree?_fill {source : String} {d : Sentence Operand}
    (hd : templateTerminals (pieces source.toList) = some d.yield) (hv : Covers values (pieces source.toList))
    {t : Expr} (ht : d.tree? (Operand.value values) = some t) :
    (d.refill (Operand.unit values)).tree? numberValue = some t.spelled := by
  have hcut := cut_of_templateTerminals hd d.spaced_yield fun _ => d.isFunctionName_of_mem_yield
  rw [Derivation.tree?_refill d fun a ha => tree?_unit (isCovered_of_mem hcut hv ha), ht]
  rfl

/-- **Filling in is hygienic.** A text whose template has a tree is read, with finite values filled in,
as that tree up to the signs of its numbers, and has the same value; unless it exceeds a limit. -/
theorem parse_fill {source : String} {values : List (String × Binary64)} {d : Sentence Operand}
    {t : Expr} (hd : templateTerminals (pieces source.toList) = some d.yield)
    (ht : d.tree? (Operand.value values) = some t)
    (hv : ∀ name ∈ placeholders source, ∃ x, lookup? name values = some x ∧ x.isFinite)
    (hlimits : WithinLimits (fill values source)) :
    parse (fill values source) = .ok t.spelled ∧ t.spelled.value = t.value ∧
      evaluate (fill values source) = t.price := by
  have hcovers := covers_of_placeholders hv
  have hderives := derives_fill hd hcovers
  obtain ⟨hlong, hdeep⟩ := (withinLimits_iff hderives).1 hlimits
  have hparse : parse (fill values source) = .ok t.spelled := by
    rw [parse_eq_of_derives hderives (tree?_fill hd hcovers ht), if_neg (Nat.not_lt.2 hlong), if_pos hdeep]
  refine ⟨hparse, t.value_spelled, ?_⟩
  rw [evaluate, hparse]
  simp only [Expr.price, t.value_spelled]

/-- The derivation of `minuend - factor * other`. -/
def difference (minuend factor other : Operand) : Sentence Operand :=
  .plain <| .tier (by decide) (.tier (by decide) (.tier (by decide) (.tier (by decide)
    (.tier (by decide) (.tier (by decide) (.unsigned (.operand minuend)) .noOperator)
      (.operator .minus .minus rfl rfl
        (.tier (by decide) (.unsigned (.operand factor))
          (.operator .times .times rfl rfl (.unsigned (.operand other)) .noOperator))
        .noOperator))
    .noOperator) .noOperator) .noOperator) .noOperator

/-- A negative value stays a factor and does not become part of the difference. -/
theorem parse_fill_negative : ∃ d : Sentence Operand,
    templateTerminals (pieces "2 - \x7b\x7bx\x7d\x7d * 3".toList) = some d.yield ∧
      evaluate (fill [("x", .ofInt (-5))] "2 - \x7b\x7bx\x7d\x7d * 3") = .ok (.ofInt 17) := by
  have hd : templateTerminals (pieces "2 - \x7b\x7bx\x7d\x7d * 3".toList) =
      some (difference (.number ['2']) (.placeholder ['x']) (.number ['3'])).yield := by
    decide +kernel
  have hv : ∀ name ∈ placeholders "2 - \x7b\x7bx\x7d\x7d * 3",
      ∃ x, lookup? name [("x", Binary64.ofInt (-5))] = some x ∧ x.isFinite :=
    finite_of_placeholders_eq (by decide +kernel) (by decide +kernel)
  have hlimits := (withinLimits_iff (derives_fill hd (covers_of_placeholders hv))).2
    ⟨by decide +kernel, by decide +kernel⟩
  obtain ⟨-, -, h⟩ := parse_fill hd rfl hv hlimits
  refine ⟨_, hd, h.trans ((if_pos ?_).trans (congrArg Except.ok ?_))⟩
  · decide +kernel
  · decide +kernel

end Formula
end Tariff
