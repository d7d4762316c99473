/-
# The grammar is unambiguous

Two derivations of one construct that begin a text and end where the construct cannot go on are the
same derivation (`Derivation.determined`), so a list of terminals has at most one derivation as
a whole (`Derivation.yield_injective`). What a construct can go on with is its `Construct.goesOn`.
-/

import Tariff.Proofs.Formula.Grammar

namespace Tariff
namespace Formula

variable {α : Type}

/-- The level of the binary operator that a terminal is. -/
def Terminal.level? : Terminal α → Option Nat
  | symbol s => s.binary?.map BinaryOp.level
  | _ => none

/-- The levels of binary operators are below that of the unary ones. -/
theorem Terminal.level?_lt {t : Terminal α} {k : Nat} (h : t.level? = some k) : k < 6 := by
  cases t with
  | symbol s =>
    obtain ⟨op, -, rfl⟩ := Option.map_eq_some_iff.1 h
    exact op.level_lt
  | _ => cases h

/-- Whether a terminal is a given symbol. -/
def Terminal.is (s : Symbol) : Terminal α → Bool
  | symbol s' => s' = s
  | _ => false

namespace Construct

/-- Whether a construct that is complete so far could go on with a terminal. -/
def goesOn : Construct → Terminal α → Bool
  | tier k, t => t.level?.any (k ≤ ·)
  | operators k, t => t.level?.any (k ≤ ·)
  | conditional, t => t.level?.isSome || t.is .question
  | arguments, t => t.level?.isSome || t.is .question || t.is .comma
  | primary, _ => false

/-- A construct ends where these terminals follow. -/
def EndsBefore (c : Construct) (rest : List (Terminal α)) : Prop :=
  ∀ t ∈ rest.head?, c.goesOn t = false

variable {rest : List (Terminal α)}

@[simp] theorem endsBefore_nil (c : Construct) : c.EndsBefore ([] : List (Terminal α)) := by
  simp [EndsBefore]

/-- Whether a construct ends is seen from the next terminal. -/
@[simp] theorem endsBefore_cons (c : Construct) (t : Terminal α) :
    c.EndsBefore (t :: rest) ↔ c.goesOn t = false := by
  simp [EndsBefore]

/-- No tier goes on with a symbol that is no binary operator. -/
theorem tier_endsBefore {s : Symbol} (hs : s.binary? = none) (k : Nat) :
    (tier k).EndsBefore (.symbol s :: rest) := by
  simp [goesOn, Terminal.level?, hs]

/-- A formula ends before a symbol that is no operator of two operands and no question mark. -/
theorem conditional_endsBefore {s : Symbol} (hs : s.binary? = none) (hq : s ≠ .question) :
    conditional.EndsBefore (.symbol s :: rest) := by
  simp [goesOn, Terminal.level?, Terminal.is, hs, hq]

/-- Arguments end before such a symbol unless it is a comma. -/
theorem arguments_endsBefore {s : Symbol} (hs : s.binary? = none) (hq : s ≠ .question)
    (hc : s ≠ .comma) : arguments.EndsBefore (.symbol s :: rest) := by
  simp [goesOn, Terminal.level?, Terminal.is, hs, hq, hc]

/-- A construct ends where one ends that can go on with more. -/
theorem EndsBefore.mono {c c' : Construct} (h : c.EndsBefore rest)
    (hc : ∀ t : Terminal α, c.goesOn t = false → c'.goesOn t = false) : c'.EndsBefore rest :=
  fun t ht => hc t (h t ht)

/-- Where a formula ends, its condition ends. -/
theorem EndsBefore.tier_zero (h : conditional.EndsBefore rest) : (tier 0).EndsBefore rest := by
  refine h.mono fun t ht => ?_
  simp only [goesOn, Bool.or_eq_false_iff, Option.isSome_eq_false_iff, Option.isNone_iff_eq_none] at ht
  simp [goesOn, ht.1]

/-- Where operands of a level end, no further operator of it comes. -/
theorem EndsBefore.operators {k : Nat} (h : (tier k).EndsBefore rest) :
    (operators k).EndsBefore rest := h

/-- An operand ends before further operators of the level above it. -/
theorem EndsBefore.operand {k : Nat} (h : (tier k).EndsBefore rest)
    (more : Derivation α (.operators k)) : (tier (k + 1)).EndsBefore (more.yield ++ rest) := by
  cases more with
  | noOperator =>
    refine h.mono fun t ht => ?_
    cases hl : t.level? with
    | none => simp [goesOn, hl]
    | some l =>
      simp only [goesOn, hl, Option.any_some, decide_eq_false_iff_not] at ht ⊢
      omega
  | operator s op hs hl right more =>
    simp [Derivation.yield, goesOn, Terminal.level?, hs, hl]

/-- An argument ends before further arguments. -/
theorem EndsBefore.argument (h : arguments.EndsBefore rest) (more : Derivation α .arguments) :
    conditional.EndsBefore (more.yield ++ rest) := by
  cases more with
  | noArgument =>
    refine h.mono fun t ht => ?_
    simp only [goesOn, Bool.or_eq_false_iff] at ht ⊢
    exact ht.1
  | argument e more => exact conditional_endsBefore rfl (by decide)

end Construct

namespace Derivation

/-- No primary begins with a sign. -/
theorem yield_primary_ne {s : Symbol} {op : UnaryOp} (hs : s.unary? = some op)
    (p : Derivation α .primary) (rest rest' : List (Terminal α)) :
    p.yield ++ rest ≠ .symbol s :: rest' := by
  intro h
  cases p with
  | operand a => simp [yield] at h
  | call text f hf first more => simp [yield] at h
  | round e =>
    obtain rfl : Symbol.openRound = s := by simpa [yield] using (List.cons.inj h).1
    simp [Symbol.unary?] at hs
  | square e =>
    obtain rfl : Symbol.openSquare = s := by simpa [yield] using (List.cons.inj h).1
    simp [Symbol.unary?] at hs

/-- A derivation is the only one of its construct that begins a text, among those that end where the
construct ends. -/
def Determined {c : Construct} (d : Derivation α c) : Prop :=
  ∀ (d' : Derivation α c) {rest rest' : List (Terminal α)}, c.EndsBefore rest → c.EndsBefore rest' →
    d.yield ++ rest = d'.yield ++ rest' → d = d' ∧ rest = rest'

namespace Determined

/-- Up to a symbol that a formula cannot go on with. -/
theorem upTo {e e' : Sentence α} (he : e.Determined) {s : Symbol} (hs : s.binary? = none)
    (hq : s ≠ .question) {rest rest' : List (Terminal α)}
    (hy : e.yield ++ .symbol s :: rest = e'.yield ++ .symbol s :: rest') : e = e' ∧ rest = rest' := by
  obtain ⟨rfl, hr⟩ := he e' (Construct.conditional_endsBefore hs hq)
    (Construct.conditional_endsBefore hs hq) hy
  exact ⟨rfl, (List.cons.inj hr).2⟩

/-! #### Choices -/

/-- A formula that is no choice is determined if its operands are: a choice would go on with a question mark. -/
theorem plain {c : Derivation α (.tier 0)} (hc : c.Determined) : (plain c).Determined := by
  intro d' rest rest' h h' hy
  cases d' with
  | plain c' =>
    obtain ⟨rfl, hr⟩ := hc c' h.tier_zero h'.tier_zero hy
    exact ⟨rfl, hr⟩
  | choice c' t' e' =>
    simp only [yield, List.append_assoc, List.cons_append] at hy
    obtain ⟨-, rfl⟩ := hc c' h.tier_zero (Construct.tier_endsBefore rfl 0) hy
    simp [Construct.goesOn, Terminal.is] at h

/-- A choice is determined part by part, the condition up to the question mark, the first branch up to the
colon. -/
theorem choice {c : Derivation α (.tier 0)} {t e : Sentence α} (hc : c.Determined)
    (ht : t.Determined) (he : e.Determined) : (choice c t e).Determined := by
  intro d' rest rest' h h' hy
  cases d' with
  | plain c' =>
    simp only [yield, List.append_assoc, List.cons_append] at hy
    obtain ⟨-, rfl⟩ := hc c' (Construct.tier_endsBefore rfl 0) h'.tier_zero hy
    simp [Construct.goesOn, Terminal.is] at h'
  | choice c' t' e' =>
    simp only [yield, List.append_assoc, List.cons_append] at hy
    obtain ⟨rfl, hy₁⟩ := hc c' (Construct.tier_endsBefore rfl 0)
      (Construct.tier_endsBefore rfl 0) hy
    obtain ⟨rfl, hy₂⟩ := ht.upTo rfl (by decide) (List.cons.inj hy₁).2
    obtain ⟨rfl, hr⟩ := he e' h h' hy₂
    exact ⟨rfl, hr⟩

/-! #### Operators -/

/-- Operands in a row are determined: the first ends where the operators begin, since those are of a looser
level. -/
theorem tier {k : Nat} (hlt : k < 6) {first : Derivation α (.tier (k + 1))}
    {more : Derivation α (.operators k)} (hfirst : first.Determined) (hmore : more.Determined) :
    (tier hlt first more).Determined := by
  intro d' rest rest' h h' hy
  cases d' with
  | tier _ first' more' =>
    simp only [yield, List.append_assoc] at hy
    obtain ⟨rfl, hy₁⟩ := hfirst first' (h.operand more) (h'.operand more') hy
    obtain ⟨rfl, hr⟩ := hmore more' h.operators h'.operators hy₁
    exact ⟨rfl, hr⟩
  | signed => omega
  | unsigned => omega

/-- That no operator follows is determined: a terminal that goes on would have to be one. -/
theorem noOperator {k : Nat} : (noOperator : Derivation α (.operators k)).Determined := by
  intro d' rest rest' h h' hy
  cases d' with
  | noOperator => exact ⟨rfl, hy⟩
  | operator s op hs hl right more =>
    simp only [yield, List.nil_append, List.cons_append] at hy
    simp [hy, Construct.goesOn, Terminal.level?, hs, hl] at h

/-- An operator with what follows is determined by its symbol, the right operand and the further operators. -/
theorem operator {k : Nat} {s : Symbol} {op : BinaryOp} (hs : s.binary? = some op)
    (hl : op.level = k) {right : Derivation α (.tier (k + 1))} {more : Derivation α (.operators k)}
    (hright : right.Determined) (hmore : more.Determined) :
    (operator s op hs hl right more).Determined := by
  intro d' rest rest' h h' hy
  cases d' with
  | noOperator =>
    simp only [yield, List.nil_append, List.cons_append] at hy
    simp [← hy, Construct.goesOn, Terminal.level?, hs, hl] at h'
  | operator s' op' hs' hl' right' more' =>
    simp only [yield, List.append_assoc, List.cons_append, List.cons.injEq,
      Terminal.symbol.injEq] at hy
    obtain ⟨rfl, hy⟩ := hy
    obtain rfl := Option.some.inj (hs.symm.trans hs')
    obtain ⟨rfl, hy₁⟩ := hright right' (Construct.EndsBefore.operand h more)
      (Construct.EndsBefore.operand h' more') hy
    obtain ⟨rfl, hr⟩ := hmore more' h h' hy₁
    exact ⟨rfl, hr⟩

/-- A sign with its operand is determined, since no operand without a sign begins with one. -/
theorem signed {s : Symbol} {op : UnaryOp} (hs : s.unary? = some op) {e : Derivation α (.tier 6)}
    (he : e.Determined) : (signed s op hs e).Determined := by
  intro d' rest rest' h h' hy
  cases d' with
  | tier hlt _ _ => omega
  | signed s' op' hs' e' =>
    simp only [yield, List.cons_append, List.cons.injEq, Terminal.symbol.injEq] at hy
    obtain ⟨rfl, hy⟩ := hy
    obtain rfl := Option.some.inj (hs.symm.trans hs')
    obtain ⟨rfl, hr⟩ := he e' h h' hy
    exact ⟨rfl, hr⟩
  | unsigned p' => exact absurd hy.symm (yield_primary_ne hs p' _ _)

/-- An operand without a sign is determined, for the same reason. -/
theorem unsigned {p : Derivation α .primary} (hp : p.Determined) : (unsigned p).Determined := by
  intro d' rest rest' h h' hy
  have hends (ts : List (Terminal α)) : Construct.primary.EndsBefore ts := fun _ _ => rfl
  cases d' with
  | tier hlt _ _ => omega
  | signed s' op' hs' e' => exact absurd hy (yield_primary_ne hs' p _ _)
  | unsigned p' =>
    obtain ⟨rfl, hr⟩ := hp p' (hends rest) (hends rest') hy
    exact ⟨rfl, hr⟩

/-! #### Operands, brackets and calls -/

theorem operand (a : α) : (operand a).Determined := by
  intro d' rest rest' _ _ hy
  cases d' with
  | operand a' =>
    simp only [yield, List.cons_append, List.nil_append, List.cons.injEq,
      Terminal.operand.injEq] at hy
    obtain ⟨rfl, hr⟩ := hy
    exact ⟨rfl, hr⟩
  | round => simp [yield] at hy
  | square => simp [yield] at hy
  | call => simp [yield] at hy

/-- What stands in round brackets is determined up to the closing one. -/
theorem round {e : Sentence α} (he : e.Determined) : (round e).Determined := by
  intro d' rest rest' _ _ hy
  cases d' with
  | operand => simp [yield] at hy
  | square => simp [yield] at hy
  | call => simp [yield] at hy
  | round e' =>
    simp only [yield, List.append_assoc, List.cons_append, List.nil_append, List.cons.injEq,
      true_and] at hy
    obtain ⟨rfl, hr⟩ := he.upTo rfl (by decide) hy
    exact ⟨rfl, hr⟩

theorem square {e : Sentence α} (he : e.Determined) : (square e).Determined := by
  intro d' rest rest' _ _ hy
  cases d' with
  | operand => simp [yield] at hy
  | round => simp [yield] at hy
  | call => simp [yield] at hy
  | square e' =>
    simp only [yield, List.append_assoc, List.cons_append, List.nil_append, List.cons.injEq,
      true_and] at hy
    obtain ⟨rfl, hr⟩ := he.upTo rfl (by decide) hy
    exact ⟨rfl, hr⟩

/-- A call is determined by its name and by its arguments, each up to the comma or the bracket behind it. -/
theorem call {text : List Char} {f : Function}
    (hf : Function.ofName? (String.ofList text) = some f) {first : Sentence α}
    {more : Derivation α .arguments} (hfirst : first.Determined) (hmore : more.Determined) :
    (call text f hf first more).Determined := by
  intro d' rest rest' _ _ hy
  have hends (ts : List (Terminal α)) :
      Construct.arguments.EndsBefore (.symbol .closeRound :: ts) :=
    Construct.arguments_endsBefore rfl (by decide) (by decide)
  cases d' with
  | operand => simp [yield] at hy
  | round => simp [yield] at hy
  | square => simp [yield] at hy
  | call text' f' hf' first' more' =>
    simp only [yield, List.append_assoc, List.cons_append, List.nil_append, List.cons.injEq,
      Terminal.name.injEq, true_and] at hy
    obtain ⟨rfl, hy⟩ := hy
    obtain rfl := Option.some.inj (hf.symm.trans hf')
    obtain ⟨rfl, hy₁⟩ := hfirst first' ((hends rest).argument more) ((hends rest').argument more') hy
    obtain ⟨rfl, hy₂⟩ := hmore more' (hends rest) (hends rest') hy₁
    exact ⟨rfl, (List.cons.inj hy₂).2⟩

/-- That no argument follows is determined: one would begin with a comma. -/
theorem noArgument : (noArgument : Derivation α .arguments).Determined := by
  intro d' rest rest' h h' hy
  cases d' with
  | noArgument => exact ⟨rfl, hy⟩
  | argument e more =>
    simp only [yield, List.nil_append, List.cons_append] at hy
    simp [hy, Construct.goesOn, Terminal.is] at h

/-- An argument behind a comma is determined up to the next comma or the end. -/
theorem argument {e : Sentence α} {more : Derivation α .arguments} (he : e.Determined)
    (hmore : more.Determined) : (argument e more).Determined := by
  intro d' rest rest' h h' hy
  cases d' with
  | noArgument =>
    simp only [yield, List.nil_append, List.cons_append] at hy
    simp [← hy, Construct.goesOn, Terminal.is] at h'
  | argument e' more' =>
    simp only [yield, List.append_assoc, List.cons_append, List.cons.injEq, true_and] at hy
    obtain ⟨rfl, hy₁⟩ := he e' (h.argument more) (h'.argument more') hy
    obtain ⟨rfl, hr⟩ := hmore more' h h' hy₁
    exact ⟨rfl, hr⟩

end Determined

/-- **A derivation is determined by the text it begins,** if it ends where its construct ends. -/
theorem determined {c : Construct} (d : Derivation α c) : d.Determined := by
  induction d with
  | plain _ ih => exact ih.plain
  | choice _ _ _ ihc iht ihe => exact ihc.choice iht ihe
  | tier hlt _ _ ih ihm => exact ih.tier hlt ihm
  | noOperator => exact .noOperator
  | operator _ _ hs hl _ _ ih ihm => exact ih.operator hs hl ihm
  | signed _ _ hs _ ih => exact ih.signed hs
  | unsigned _ ih => exact ih.unsigned
  | operand a => exact .operand a
  | round _ ih => exact ih.round
  | square _ ih => exact ih.square
  | call _ _ hf _ _ ih ihm => exact ih.call hf ihm
  | noArgument => exact .noArgument
  | argument _ _ ih ihm => exact ih.argument ihm

/-- **The grammar is unambiguous.** -/
theorem yield_injective {c : Construct} {d d' : Derivation α c} (h : d.yield = d'.yield) : d = d' :=
  (d.determined d' (Construct.endsBefore_nil c) (Construct.endsBefore_nil c) (by rw [h])).1

end Derivation
end Formula
end Tariff
