/-
# Ways down a tree

How deep the tree of a formula is depends on both limits, on neither alone: operators of two operands in a row are not
nested, however many they are, and a choice is no deeper nested than the condition it has. What bounds a way from the
root to a leaf is an account of its nodes (`Affords`).

| node | paid for by |
| --- | --- |
| an operator of two operands | two tokens: the operator, and one of the operand that the way does not go to |
| an operator of one operand, a function | a level of nesting |
| a choice | the level of the bracket, call or branch that it stands in |
| a number | itself |

So each level pays for two nodes, and a formula in no bracket, call or branch may be one choice more
(`Construct.Affords`).
-/

import Tariff.Proofs.Formula.Acceptance
import Tariff.Proofs.Formula.Lexing

namespace Tariff
namespace Formula

namespace Expr

/-- What a tree is made of directly. -/
def parts : Expr → List Expr
  | number _ => []
  | unary _ e => [e]
  | binary _ l r => [l, r]
  | choice c t e => [c, t, e]
  | extreme _ first more => first :: more
  | whole _ e => [e]

def isBinary : Expr → Bool
  | binary .. => true
  | _ => false

/-- The nodes on a way from the root of a tree to one of its leaves. -/
inductive WayDown : Expr → List Expr → Prop where
  | leaf {e : Expr} : e.parts = [] → WayDown e [e]
  | node {e part : Expr} {way : List Expr} : part ∈ e.parts → WayDown part way → WayDown e (e :: way)

/-- Every way down a tree has few enough nodes: two for each operator of two operands are less than a number of tokens,
and those of the other nodes are at most a number. -/
def Affords (e : Expr) (tokens others : Nat) : Prop :=
  ∀ way, e.WayDown way → 2 * way.countP isBinary < tokens ∧ way.countP (!isBinary ·) ≤ others

/-- There is a way down every tree. -/
theorem exists_wayDown (e : Expr) : ∃ way, e.WayDown way := by
  cases e with
  | number _ => exact ⟨_, .leaf rfl⟩
  | unary _ e => exact (exists_wayDown e).imp' _ fun _ => .node List.mem_cons_self
  | binary _ l _ => exact (exists_wayDown l).imp' _ fun _ => .node List.mem_cons_self
  | choice c _ _ => exact (exists_wayDown c).imp' _ fun _ => .node List.mem_cons_self
  | extreme _ first _ => exact (exists_wayDown first).imp' _ fun _ => .node List.mem_cons_self
  | whole _ e => exact (exists_wayDown e).imp' _ fun _ => .node List.mem_cons_self

section Affords

variable {e l r : Expr} {tokens tokens' others others' : Nat}

theorem Affords.mono (h : e.Affords tokens others) (ht : tokens ≤ tokens') (ho : others ≤ others') :
    e.Affords tokens' others' :=
  fun way hway => ⟨Nat.lt_of_lt_of_le (h way hway).1 ht, Nat.le_trans (h way hway).2 ho⟩

/-- There is at least one token for a tree. -/
theorem Affords.pos (h : e.Affords tokens others) : 0 < tokens := by
  obtain ⟨way, hway⟩ := exists_wayDown e
  exact Nat.zero_lt_of_lt (h way hway).1

/-- A number is a way down by itself, with one token and one node. -/
theorem affords_number (x : Binary64) : (number x).Affords 1 1 := by
  rintro way (_ | ⟨hpart, -⟩)
  · simp [isBinary]
  · cases hpart

/-- A node that is no operator of two operands is one more of the others. -/
theorem affords_node (hb : e.isBinary = false) (hparts : e.parts ≠ [])
    (h : ∀ part ∈ e.parts, part.Affords tokens others) : e.Affords tokens (others + 1) := by
  rintro way (hleaf | ⟨hpart, hway⟩)
  · exact absurd hleaf hparts
  · obtain ⟨htokens, hothers⟩ := h _ hpart _ hway
    rw [List.countP_cons_of_neg (by simp [hb]), List.countP_cons_of_pos (by simp [hb])]
    exact ⟨htokens, Nat.succ_le_succ hothers⟩

/-- An operator of two operands is paid for by its token and one of the operand that a way does not go to. -/
theorem Affords.binary (hl : l.Affords tokens others) (hr : r.Affords tokens' others) (op : BinaryOp) :
    (Expr.binary op l r).Affords (tokens + (tokens' + 1)) others := by
  have := hl.pos
  have := hr.pos
  rintro way (hleaf | @⟨_, part, way, hpart, hway⟩)
  · cases hleaf
  · rw [List.countP_cons_of_pos rfl, List.countP_cons_of_neg (by simp [isBinary])]
    simp only [parts, List.mem_cons, List.not_mem_nil, or_false] at hpart
    rcases hpart with rfl | rfl
    · obtain ⟨htokens, hothers⟩ := hl way hway
      exact ⟨by omega, hothers⟩
    · obtain ⟨htokens, hothers⟩ := hr way hway
      exact ⟨by omega, hothers⟩

end Affords
end Expr

/-! ### Derivations -/

/-- What a construct of a number of tokens and levels affords. Operators add their tokens to those of the operand to
their left. -/
def Construct.Affords (tokens levels : Nat) : (c : Construct) → c.Meaning → Prop
  | conditional, e => e.Affords tokens (2 * levels + 2)
  | tier _, e => e.Affords tokens (2 * levels + 1)
  | primary, e => e.Affords tokens (2 * levels + 1)
  | operators _, more => ∀ (first : Expr) (front others : Nat), 2 * levels + 1 ≤ others → first.Affords front others →
      (Derivation.groupLeft first more).Affords (front + tokens) others
  | arguments, es => ∀ e ∈ es, e.Affords tokens (2 * levels + 2)

namespace Derivation

variable {α : Type} {leaf : α → Binary64}

/-- A call is a node of its own over its arguments. -/
theorem affords_call {f : Function} {e : Expr} {es : List Expr} (h : f.call? es = some e) {tokens others : Nat}
    (hargs : ∀ arg ∈ es, arg.Affords tokens others) : e.Affords tokens (others + 1) := by
  rcases f with f | f
  · rcases es with _ | ⟨first, more⟩
    · cases h
    · obtain rfl := Option.some.inj h
      exact Expr.affords_node rfl (List.cons_ne_nil _ _) hargs
  · rcases es with _ | ⟨arg, _ | ⟨_, _⟩⟩
    · cases h
    · obtain rfl := Option.some.inj h
      exact Expr.affords_node rfl (List.cons_ne_nil _ _) hargs
    · cases h

/-- **The tokens and the levels of a derivation pay for every way down its tree.** By induction on the
derivation: each production adds what its node costs, in tokens or in a level. -/
theorem affords_tree {c : Construct} (d : Derivation α c) {x : c.Meaning} (h : d.tree? leaf = some x) :
    c.Affords d.yield.length d.nesting x := by
  induction d with
  | plain c ih => exact (ih h).mono (Nat.le_refl _) (Nat.le_succ _)
  | choice c t e ihc iht ihe =>
    obtain ⟨x, hx, y, hy, z, hz, rfl⟩ := tree?_choice_eq_some_iff.1 h
    simp only [Construct.Affords, yield, nesting, List.length_append, List.length_cons]
    refine Expr.affords_node rfl (List.cons_ne_nil _ _) fun part hpart => ?_
    simp only [Expr.parts, List.mem_cons, List.not_mem_nil, or_false] at hpart
    rcases hpart with rfl | rfl | rfl
    · exact (ihc hx).mono (by omega) (by omega)
    · exact (iht hy).mono (by omega) (by omega)
    · exact (ihe hz).mono (by omega) (by omega)
  | tier _ first more ih ihm =>
    obtain ⟨x, hx, xs, hxs, rfl⟩ := tree?_tier_eq_some_iff.1 h
    simp only [Construct.Affords, yield, nesting, List.length_append]
    exact ihm hxs x _ _ (by omega) ((ih hx).mono (Nat.le_refl _) (by omega))
  | noOperator =>
    obtain rfl := Option.some.inj h
    exact fun first front others _ hfirst => hfirst
  | operator s op _ _ right more ih ihm =>
    obtain ⟨x, hx, xs, hxs, rfl⟩ := tree?_operator_eq_some_iff.1 h
    simp only [Construct.Affords, yield, nesting, List.length_append, List.length_cons]
    intro first front others hothers hfirst
    -- The operators further to the right have this one for their left operand.
    have hleft := hfirst.binary ((ih hx).mono (Nat.le_refl _) (show _ ≤ others by omega)) op
    exact (ihm hxs _ _ others (by omega) hleft).mono (by omega) (Nat.le_refl _)
  | signed s op _ e ih =>
    obtain ⟨x, hx, rfl⟩ := tree?_signed_eq_some_iff.1 h
    simp only [Construct.Affords, yield, nesting, List.length_cons]
    refine Expr.affords_node rfl (List.cons_ne_nil _ _) fun part hpart => ?_
    obtain rfl := List.mem_singleton.1 hpart
    exact (ih hx).mono (by omega) (by omega)
  | unsigned p ih => exact ih h
  | operand a =>
    obtain rfl := Option.some.inj h
    exact Expr.affords_number _
  | round e ih =>
    simp only [Construct.Affords, yield, nesting, List.length_append, List.length_cons]
    exact (ih h).mono (by omega) (by omega)
  | square e ih =>
    simp only [Construct.Affords, yield, nesting, List.length_append, List.length_cons]
    exact (ih h).mono (by omega) (by omega)
  | call text f _ first more ih ihm =>
    obtain ⟨x, hx, xs, hxs, hcall⟩ := tree?_call_eq_some_iff.1 h
    simp only [Construct.Affords, yield, nesting, List.length_append, List.length_cons]
    refine affords_call hcall (List.forall_mem_cons.2 ⟨?_, fun arg harg => ?_⟩)
    · exact (ih hx).mono (by omega) (by omega)
    · exact (ihm hxs arg harg).mono (by omega) (by omega)
  | noArgument =>
    obtain rfl := Option.some.inj h
    exact List.forall_mem_nil _
  | argument e more ih ihm =>
    obtain ⟨x, hx, xs, hxs, rfl⟩ := tree?_argument_eq_some_iff.1 h
    simp only [Construct.Affords, yield, nesting, List.length_append, List.length_cons]
    refine List.forall_mem_cons.2 ⟨?_, fun arg harg => ?_⟩
    · exact (ih hx).mono (by omega) (by omega)
    · exact (ihm hxs arg harg).mono (by omega) (by omega)

end Derivation

/-- The limits bound every way down the tree of what is read. -/
theorem wayDown_length_le {source : String} {e : Expr} (h : parse source = .ok e) {way : List Expr}
    (hway : e.WayDown way) : way.length ≤ tokenLimit / 2 + 2 * nestingLimit + 1 := by
  obtain ⟨ts, -, hread⟩ := bind_eq_ok_iff.1 h
  obtain ⟨-, hlong, d, hyield, hdeep, htree⟩ := ofTokens_eq_ok_iff.1 hread
  obtain ⟨htokens, hothers⟩ := d.affords_tree htree way hway
  rw [hyield, List.length_map] at htokens
  have hlength : way.length = way.countP Expr.isBinary + way.countP (!Expr.isBinary ·) := by
    simpa using List.length_eq_countP_add_countP Expr.isBinary
  rw [tokenLimit] at hlong ⊢
  rw [nestingLimit] at hdeep ⊢
  omega

/-! ### What is not nested -/

/-- On every level a number can stand alone. -/
theorem exists_operand {level : Nat} (h : level ≤ 6) :
    ∃ d : Parse (.tier level), d.nesting = 0 ∧ ∃ x, d.tree? numberValue = some (.number x) := by
  induction hn : 6 - level generalizing level with
  | zero =>
    obtain rfl : level = 6 := by omega
    exact ⟨.unsigned (.operand ['1']), rfl, _, rfl⟩
  | succ n ih =>
    obtain ⟨d, hd, x, hx⟩ := @ih (level + 1) (by omega) (by omega)
    exact ⟨.tier (by omega) d .noOperator, by simp [Derivation.nesting, hd], x,
      by simp [Derivation.tree?, hx, Derivation.groupLeft]⟩

/-- Every operator of two operands has a symbol, so it costs a token. -/
theorem exists_symbol (op : BinaryOp) : ∃ s : Symbol, s.binary? = some op := by
  have hany : Symbol.all.any fun s => s.binary? = some op := by cases op <;> decide
  obtain ⟨s, -, hs⟩ := List.any_eq_true.1 hany
  exact ⟨s, of_decide_eq_true hs⟩

/-- Operators of two operands in a row are not nested, and the way to the first operand goes through all of them. -/
theorem exists_chain (op : BinaryOp) (n : Nat) : ∃ d : Parse (.tier op.level), d.nesting = 0 ∧
    ∃ e way, d.tree? numberValue = some e ∧ e.WayDown way ∧ way.length = n + 1 := by
  obtain ⟨s, hs⟩ := exists_symbol op
  obtain ⟨d, hd, x, hx⟩ := exists_operand (Nat.succ_le_of_lt op.level_lt)
  have hchain : ∀ n, ∃ more : Parse (.operators op.level), more.nesting = 0 ∧
      ∃ es, more.tree? numberValue = some es ∧ ∀ first way, Expr.WayDown first way →
        ∃ way', (Derivation.groupLeft first es).WayDown way' ∧ way'.length = way.length + n := by
    intro n
    induction n with
    | zero => exact ⟨.noOperator, rfl, [], rfl, fun first way hway => ⟨way, hway, rfl⟩⟩
    | succ n ih =>
      obtain ⟨more, hmore, es, hes, hways⟩ := ih
      refine ⟨.operator s op hs rfl d more, by simp [Derivation.nesting, hd, hmore], (op, .number x) :: es,
        by simp [Derivation.tree?, hx, hes], fun first way hway => ?_⟩
      obtain ⟨way', hway', hlength⟩ :=
        hways (.binary op first (.number x)) _ (.node (by simp [Expr.parts]) hway)
      exact ⟨way', hway', by rw [hlength, List.length_cons]; omega⟩
  obtain ⟨more, hmore, es, hes, hways⟩ := hchain n
  obtain ⟨way, hway, hlength⟩ := hways (.number x) _ (.leaf rfl)
  refine ⟨.tier op.level_lt d more, by simp [Derivation.nesting, hd, hmore], _, way,
    by simp only [Derivation.tree?, hx, hes]; rfl, hway, ?_⟩
  rw [hlength, List.length_singleton, Nat.add_comm]

/-- A choice is nested as deep as its condition, if its branches are nested less deep. -/
theorem nesting_choice {c : Parse (.tier 0)} {t e : Sentence (List Char)} (ht : t.nesting < c.nesting)
    (he : e.nesting < c.nesting) : (Derivation.choice c t e).nesting = c.nesting := by
  rw [Derivation.nesting]
  omega

/-- **The limits together bound every way down a tree that is read.** Neither does alone: operators of two operands in a
row are not nested, however many they are, and a choice need not be nested deeper than its condition. -/
theorem ways_down_bounded :
    (∀ source e way, parse source = .ok e → e.WayDown way →
      way.length ≤ tokenLimit / 2 + 2 * nestingLimit + 1) ∧
    (∀ (op : BinaryOp) (n : Nat), ∃ d : Parse (.tier op.level), d.nesting = 0 ∧
      ∃ e way, d.tree? numberValue = some e ∧ e.WayDown way ∧ way.length = n + 1) ∧
    ∀ (c : Parse (.tier 0)) (t e : Sentence (List Char)), t.nesting < c.nesting → e.nesting < c.nesting →
      (Derivation.choice c t e).nesting = c.nesting :=
  ⟨fun _ _ _ h hway => wayDown_length_le h hway, exists_chain, fun _ _ _ => nesting_choice⟩

/-- In `1+2?3:4` the way to the first number goes through the choice and the operator. -/
theorem ways_down_bounded_sumChoice : ∃ e way, parse "1+2?3:4" = .ok e ∧ e.WayDown way ∧ way.length = 3 ∧
    way.length ≤ tokenLimit / 2 + 2 * nestingLimit + 1 := by
  have hcheck : firstForeign? none 0 0 "1+2?3:4".toList = none := by decide +kernel
  have step (l : Lexeme) (position : Nat) {rest : List Char} {ts : List Token}
      (hrest : tokensFrom (position + l.chars.length) rest = .ok ts) (hl : lexemeAt? (l.chars ++ rest) = some l) :
      tokensFrom position (l.chars ++ rest) = .ok (⟨l, position⟩ :: ts) := by
    rw [tokensFrom_lexeme hl, hrest]
    rfl
  have h₇ : tokensFrom 7 [] = .ok [] := by rw [tokensFrom]
  have h₆ := step (.number ['4']) 6 h₇ (by decide +kernel)
  have h₅ := step (.symbol .colon) 5 h₆ (by decide +kernel)
  have h₄ := step (.number ['3']) 4 h₅ (by decide +kernel)
  have h₃ := step (.symbol .question) 3 h₄ (by decide +kernel)
  have h₂ := step (.number ['2']) 2 h₃ (by decide +kernel)
  have h₁ := step (.symbol .plus) 1 h₂ (by decide +kernel)
  have hts : tokensFrom 0 "1+2?3:4".toList = _ := step (.number ['1']) 0 h₁ (by decide +kernel)
  have hparse : parse "1+2?3:4" = .ok (.choice (.binary .plus (.number (numberValue ['1'])) (.number (numberValue ['2'])))
      (.number (numberValue ['3'])) (.number (numberValue ['4']))) := by
    rw [parse, tokens_eq_ok_iff.2 ⟨hcheck, hts⟩]
    rfl
  have hway := Expr.WayDown.node (e := .choice (.binary .plus (.number (numberValue ['1'])) (.number (numberValue ['2'])))
      (.number (numberValue ['3'])) (.number (numberValue ['4']))) List.mem_cons_self
    (.node List.mem_cons_self (.leaf rfl))
  exact ⟨_, _, hparse, hway, rfl, ways_down_bounded.1 _ _ _ hparse hway⟩

end Formula
end Tariff
