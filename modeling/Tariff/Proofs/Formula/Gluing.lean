/-
# Placeholders that are glued to their neighbours

Filling in puts the literal of a value where its placeholder was, and a neighbour may take it for a part of something
else. In the table `x` and `y` are placeholders.

| text | value | filled in | is read as |
| --- | --- | --- | --- |
| `1x` | `5` | `15.0` | a longer number |
| `.x` | `10 ^ 16` | `.10000000000000000` | a smaller number |
| `xy` | `10 ^ 16` and `5` | `100000000000000005.0` | one number for two |
| `2 x` | `-5` | `2 -5.0` | a difference |

In each a placeholder is glued to a neighbour (`Glued`): the two touch and have not both a point, or the placeholder
has a negative value and stands behind the end of an operand. Two operands then follow each other in the template, so
that it has no derivation (`Glued.not_operandsApart`). Where no placeholder is glued, no sign of a value stands where it
would be read as an operator (`signsApart_of_templateTerminals`).
-/

import Tariff.Proofs.Formula.Front
import Tariff.Proofs.Formula.Signs
import Tariff.Proofs.Formula.Template

namespace Tariff
namespace Formula

/-! ### Neighbours -/

/-- The size of what an operand stands for, as it is written. -/
def Operand.size (values : List (String × Binary64)) : Operand → List Char
  | number text => text
  | placeholder inside =>
    match lookup? (String.ofList (trimChars inside)) values with
    | some (.finite _ m) => m.literal
    | _ => []

/-- Whether the value of an operand carries a minus sign. -/
def Operand.isNegative (values : List (String × Binary64)) : Operand → Bool
  | number _ => false
  | placeholder inside =>
    match lookup? (String.ofList (trimChars inside)) values with
    | some (.finite s _) => s
    | _ => false

namespace Piece

def size (values : List (String × Binary64)) : Piece → List Char
  | char c => [c]
  | slot inside => (Operand.placeholder inside).size values

def isNegative (values : List (String × Binary64)) : Piece → Bool
  | char _ => false
  | slot inside => (Operand.placeholder inside).isNegative values

def isSlot : Piece → Bool
  | char _ => false
  | slot _ => true

/-- Whether an operand may end with a piece. -/
def endsOperand : Piece → Bool
  | char c => Formula.isNumeric c || c = ')' || c = ']'
  | slot _ => true

end Piece

/-- Some placeholder is glued to a neighbour when values are filled in. -/
inductive Glued (values : List (String × Binary64)) (ps : List Piece) : Prop where
  /-- A placeholder touches a digit, a point or another placeholder, and not both of the two have a point. -/
  | touch {p q : Piece} (hp : p.isNumeric) (hq : q.isNumeric) (hslot : p.isSlot ∨ q.isSlot)
      (hpoint : '.' ∉ p.size values ∨ '.' ∉ q.size values) (h : [p, q] <:+: ps)
  /-- A placeholder with a negative value stands behind the end of an operand. -/
  | sign {p : Piece} {blanks inside : List Char} (hp : p.endsOperand) (hb : ∀ c ∈ blanks, isBlank c)
      (hneg : (Piece.slot inside).isNegative values) (h : p :: (blanks.map .char ++ [.slot inside]) <:+: ps)

variable {values : List (String × Binary64)} {ps : List Piece}

theorem Glued.behind (h : Glued values ps) (front : List Piece) : Glued values (front ++ ps) := by
  have hrest : ps <:+: front ++ ps := (List.suffix_append front ps).isInfix
  cases h with
  | touch hp hq hslot hpoint h => exact .touch hp hq hslot hpoint (h.trans hrest)
  | sign hp hb hneg h => exact .sign hp hb hneg (h.trans hrest)

/-! ### No sign is an operator -/

/-- A lexeme ends an operand just if its last character may. -/
theorem endsOperand_inTemplate {l : Lexeme} {cs front : List Char} {c : Char} (hl : lexemeAt? cs = some l)
    (hchars : l.chars = front ++ [c]) : l.inTemplate.endsOperand = (Piece.char c).endsOperand := by
  have hlast : l.chars.getLast? = some c := by rw [hchars, List.getLast?_concat]
  cases l with
  | number text =>
    have hnumeric := isNumeric_of_positional (positional_of_lexemeAt? hl) c (List.mem_of_getLast? hlast)
    simp [Lexeme.inTemplate, Terminal.endsOperand, Piece.endsOperand, hnumeric]
  | name text =>
    have hletter := (isNameChar_of_nameAt? (nameAt?_of_lexemeAt? hl)).2 c hlast
    refine Eq.symm (Bool.eq_false_iff.2 fun hends => ?_)
    simp only [Piece.endsOperand, Bool.or_eq_true, decide_eq_true_eq] at hends
    rcases hends with (hc | rfl) | rfl
    · simp [not_isNameChar_of_isNumeric hc] at hletter
    · simp [isNameChar] at hletter
    · simp [isNameChar] at hletter
  | symbol s =>
    have hall : s.chars.getLast?.all fun c =>
        (Terminal.symbol s : Terminal Operand).endsOperand = (Piece.char c).endsOperand := by
      cases s <;> decide
    rw [show s.chars.getLast? = some c from hlast] at hall
    exact of_decide_eq_true hall

/-- Only white space stands in front of a placeholder that the first terminal is. -/
theorem exists_slot_of_isNegative {t : Terminal Operand} {us : List (Terminal Operand)}
    (h : templateTerminals ps = some (t :: us)) (hneg : t.isNegative (Operand.isNegative values)) :
    ∃ (blanks inside : List Char) (rest : List Piece), ps = blanks.map .char ++ .slot inside :: rest ∧
      (∀ c ∈ blanks, isBlank c) ∧ (Piece.slot inside).isNegative values := by
  induction ps with
  | nil => simp [templateTerminals] at h
  | cons p ps ih =>
    cases p with
    | slot inside =>
      rw [templateTerminals] at h
      obtain ⟨us', -, hus⟩ := Option.map_eq_some_iff.1 h
      obtain ⟨rfl, -⟩ := List.cons.inj hus
      exact ⟨[], inside, ps, rfl, List.forall_mem_nil _, hneg⟩
    | char c =>
      obtain ⟨hc, hrest⟩ | ⟨l, after, us', -, -, -, -, hus⟩ := templateTerminals_char h
      · obtain ⟨blanks, inside, rest, rfl, hb, hslot⟩ := ih hrest
        exact ⟨c :: blanks, inside, rest, rfl, List.forall_mem_cons.2 ⟨hc, hb⟩, hslot⟩
      · obtain ⟨rfl, -⟩ := List.cons.inj hus
        cases l <;> simp [Lexeme.inTemplate, Terminal.isNegative, Operand.isNegative] at hneg

/-- Behind a piece that an operand may end with the sign of a placeholder is glued. -/
theorem glued_of_isNegative {p : Piece} (hp : p.endsOperand) {t : Terminal Operand} {us : List (Terminal Operand)}
    (h : templateTerminals ps = some us) (ht : t ∈ us.head?) (hneg : t.isNegative (Operand.isNegative values)) :
    Glued values (p :: ps) := by
  obtain ⟨us, rfl⟩ : ∃ us', us = t :: us' := by
    cases us with
    | nil => simp at ht
    | cons u us' => exact ⟨us', by rw [Option.some.inj ht]⟩
  obtain ⟨blanks, inside, rest, rfl, hb, hslot⟩ := exists_slot_of_isNegative h hneg
  exact .sign hp hb hslot ⟨[], rest, by simp⟩

/-- **Where no placeholder is glued, no negative operand stands behind the end of another.** Such a neighbour
would be glued to it, whatever white space is between them. -/
theorem signsApart_of_templateTerminals : ∀ {ps : List Piece} {us : List (Terminal Operand)},
    templateTerminals ps = some us → ¬ Glued values ps → SignsApart (Operand.isNegative values) us
  | [], us, h, _ => by
    rw [templateTerminals] at h
    obtain rfl := Option.some.inj h
    exact .nil
  | .slot inside :: rest, us, h, hg => by
    rw [templateTerminals] at h
    obtain ⟨us', hus', rfl⟩ := Option.map_eq_some_iff.1 h
    refine List.isChain_cons.2 ⟨fun u hu _ => ?_, signsApart_of_templateTerminals hus' fun h => hg (h.behind [_])⟩
    exact Bool.eq_false_iff.2 fun hneg => hg (glued_of_isNegative rfl hus' hu hneg)
  | .char c :: rest, us, h, hg => by
    obtain ⟨hc, hrest⟩ | ⟨l, after, us', hl, hafter, hlt, hus', rfl⟩ := templateTerminals_char h
    · exact signsApart_of_templateTerminals hrest fun h => hg (h.behind [.char c])
    · rw [hafter] at hg
      refine List.isChain_cons.2 ⟨fun u hu hends => ?_, signsApart_of_templateTerminals hus' fun h => hg (h.behind _)⟩
      obtain ⟨front, d, hd⟩ := (List.eq_nil_or_concat l.chars).resolve_left (lexemeAt?_ne_nil hl)
      rw [List.concat_eq_append] at hd
      rw [endsOperand_inTemplate hl hd] at hends
      rw [hd, List.map_append, List.append_assoc] at hg
      exact Bool.eq_false_iff.2 fun hneg => hg ((glued_of_isNegative hends hus' hu hneg).behind _)
termination_by ps => ps.length
decreasing_by
  all_goals simp only [List.length_cons] at *
  all_goals omega

/-! ### Operands that follow each other -/

/-- Digits, points and placeholders may end an operand. -/
theorem endsOperand_of_isNumeric {p : Piece} (h : p.isNumeric) : p.endsOperand := by
  cases p with
  | char c => exact Bool.or_eq_true_iff.2 (.inl (Bool.or_eq_true_iff.2 (.inl h)))
  | slot inside => rfl

/-- What ends an operand is no white space, so white space is between the operand and a sign, if there is any.
-/
theorem isBlank_eq_false_of_endsOperand {c : Char} (h : (Piece.char c).endsOperand) : isBlank c = false := by
  simp only [Piece.endsOperand, Bool.or_eq_true, decide_eq_true_eq] at h
  rcases h with (h | rfl) | rfl
  · exact isBlank_eq_false (by simpa [isNumeric, or_assoc] using Or.inl h)
  · decide
  · decide

/-- **A lexeme ends with each piece that may end an operand,** if white space or a placeholder comes next, or if it is
a placeholder itself. -/
theorem exists_terminal_of_endsOperand {p : Piece} {post : List Piece} (hp : p.endsOperand)
    (hedge : p.isSlot ∨ ∀ c ∈ (leading post).head?, isBlank c) :
    ∀ {ps : List Piece} (pre : List Piece) {us : List (Terminal Operand)}, ps = pre ++ p :: post →
      templateTerminals ps = some us →
        ∃ us₁ t us₂, us = us₁ ++ t :: us₂ ∧ t.endsOperand ∧ templateTerminals post = some us₂
  | [], pre, us, hps, _ => by simp at hps
  | .slot inside :: rest, pre, us, hps, h => by
    rw [templateTerminals] at h
    obtain ⟨us', hus', rfl⟩ := Option.map_eq_some_iff.1 h
    cases pre with
    | nil =>
      obtain ⟨rfl, rfl⟩ := List.cons.inj hps
      exact ⟨[], _, us', rfl, rfl, hus'⟩
    | cons q pre =>
      obtain ⟨us₁, t, us₂, rfl, ht⟩ :=
        exists_terminal_of_endsOperand hp hedge pre (List.cons.inj hps).2 hus'
      exact ⟨_ :: us₁, t, us₂, rfl, ht⟩
  | .char c :: rest, pre, us, hps, h => by
    obtain ⟨hc, hrest⟩ | ⟨l, after, us', hl, hafter, hlt, hus', rfl⟩ := templateTerminals_char h
    · cases pre with
      | nil =>
        obtain ⟨rfl, rfl⟩ := List.cons.inj hps
        simp [isBlank_eq_false_of_endsOperand hp] at hc
      | cons q pre => exact exists_terminal_of_endsOperand hp hedge pre (List.cons.inj hps).2 hrest
    · rw [hafter] at hps
      obtain ⟨behind, rfl, hbehind⟩ | ⟨more, hmore, hrest⟩ := List.append_eq_append_iff.1 hps
      · obtain ⟨us₁, t, us₂, rfl, ht⟩ := exists_terminal_of_endsOperand hp hedge behind hbehind hus'
        exact ⟨_ :: us₁, t, us₂, rfl, ht⟩
      · obtain ⟨front, back, hchars, rfl, rfl⟩ := List.map_eq_append_iff.1 hmore
        cases back with
        | nil =>
          have hbehind : after = [] ++ p :: post := hrest.symm
          obtain ⟨us₁, t, us₂, rfl, ht⟩ := exists_terminal_of_endsOperand hp hedge [] hbehind hus'
          exact ⟨_ :: us₁, t, us₂, rfl, ht⟩
        | cons d back =>
          obtain ⟨rfl, hback⟩ := List.cons.inj hrest
          cases back with
          | nil =>
            obtain rfl : post = after := hback
            exact ⟨[], _, us', rfl, (endsOperand_inTemplate hl hchars).trans hp, hus'⟩
          | cons e back =>
            -- White space comes next, and no lexeme has any.
            have hblank := hedge.resolve_left (by simp [Piece.isSlot]) e (by rw [hback]; rfl)
            simp [isBlank_eq_false_of_mem_chars hl e (by simp [hchars])] at hblank
termination_by ps => ps.length
decreasing_by
  all_goals simp only [List.length_cons] at *
  all_goals omega

/-- A digit, a point or a placeholder begins an operand. -/
theorem exists_operand_of_isNumeric {p : Piece} (hp : p.isNumeric) {us : List (Terminal Operand)}
    (h : templateTerminals (p :: ps) = some us) : ∃ a us', us = .operand a :: us' := by
  cases p with
  | slot inside =>
    rw [templateTerminals] at h
    obtain ⟨us', -, rfl⟩ := Option.map_eq_some_iff.1 h
    exact ⟨_, us', rfl⟩
  | char c =>
    have hc : isNumeric c := hp
    obtain ⟨hblank, -⟩ | ⟨l, after, us', hl, hafter, -, -, rfl⟩ := templateTerminals_char h
    · simp [isBlank_eq_false_of_endsOperand (endsOperand_of_isNumeric hp)] at hblank
    · have hleading := congrArg leading hafter
      rw [leading_append, leading] at hleading
      obtain ⟨text, rfl⟩ := exists_number_of_isNumeric hc (hleading ▸ hl)
      exact ⟨_, us', rfl⟩

/-- White space in front does not matter to the terminals of a template. -/
theorem templateTerminals_blanks {blanks : List Char} (hb : ∀ c ∈ blanks, isBlank c) (ps : List Piece) :
    templateTerminals (blanks.map .char ++ ps) = templateTerminals ps := by
  induction blanks with
  | nil => rfl
  | cons c blanks ih =>
    obtain ⟨hc, hb⟩ := List.forall_mem_cons.1 hb
    rw [List.map_cons, List.cons_append, templateTerminals_blank hc, ih hb]

/-- **Where a placeholder is glued, an operand follows another.** So the template has no derivation, since in
one every operand is followed by a symbol. -/
theorem Glued.not_operandsApart (h : Glued values ps) {us : List (Terminal Operand)}
    (hus : templateTerminals ps = some us) : ¬ OperandsApart us := by
  -- In both cases a piece that may end an operand stands in front of one that begins the next.
  have hfollow (pre : List Piece) {p : Piece} (blanks : List Char) (q : Piece) (post : List Piece)
      (hp : p.endsOperand) (hedge : p.isSlot ∨ ∀ c ∈ (leading (blanks.map .char ++ q :: post)).head?, isBlank c)
      (hb : ∀ c ∈ blanks, isBlank c) (hq : q.isNumeric)
      (hps : ps = pre ++ p :: (blanks.map .char ++ q :: post)) : ¬ OperandsApart us := by
    obtain ⟨us₁, t, us₂, rfl, ht, hus₂⟩ := exists_terminal_of_endsOperand hp hedge pre hps hus
    rw [templateTerminals_blanks hb] at hus₂
    obtain ⟨a, us₂, rfl⟩ := exists_operand_of_isNumeric hq hus₂
    intro hchain
    have hsymbol := (List.isChain_cons.1 hchain.right_of_append).1 (.operand a) rfl ht
    simp [Terminal.isSymbol] at hsymbol
  cases h with
  | @touch p q hp hq hslot _ h =>
    obtain ⟨pre, post, rfl⟩ := h
    refine hfollow pre [] q post (endsOperand_of_isNumeric hp) ?_ (List.forall_mem_nil _) hq (by simp)
    cases q with
    | slot inside => exact .inr (by simp [leading])
    | char c => exact .inl (hslot.resolve_right (by simp [Piece.isSlot]))
  | @sign p blanks inside hp hb _ h =>
    obtain ⟨pre, post, rfl⟩ := h
    refine hfollow pre blanks (.slot inside) post hp (.inr fun c hc => ?_) hb rfl (by simp)
    rw [leading_append, show leading (.slot inside :: post) = [] from rfl, List.append_nil] at hc
    exact hb c (List.mem_of_mem_head? hc)

end Formula
end Tariff
