/-
# Substitution in derivations

An operand may be replaced by anything that stands on the tier of the unary operators, and the result is
a derivation again (`Derivation.refill`): its terminals are those of the first one with every operand
replaced, and its tree is the first one's.

So a negative number may be written as a minus sign before its size wherever an operand stands, without
any brackets. In a tree this is `Expr.spelled`, which changes no value (`Expr.value_spelled`).
-/

import Tariff.Proofs.Formula.Grammar

namespace Tariff
namespace Formula

/-! ### Trees with signs -/

namespace Expr

mutual

/-- A tree with a minus sign before the size of each negative number. -/
def spelled : Expr → Expr
  | number (.finite true m) => unary .minus (number (.finite false m))
  | number x => number x
  | unary op e => unary op e.spelled
  | binary op l r => binary op l.spelled r.spelled
  | choice c t e => choice c.spelled t.spelled e.spelled
  | extreme f first more => extreme f first.spelled (spelledAll more)
  | whole f e => whole f e.spelled

def spelledAll : List Expr → List Expr
  | [] => []
  | e :: rest => e.spelled :: spelledAll rest

end

theorem spelledAll_eq_map (es : List Expr) : spelledAll es = es.map spelled := by
  induction es with
  | nil => rfl
  | cons e rest ih => simp [spelledAll, ih]

mutual

/-- **A sign is worth what it replaces.** -/
theorem value_spelled : ∀ e : Expr, e.spelled.value = e.value
  | number (.finite true m) => rfl
  | number (.finite false m) => rfl
  | number (.infinite _) => rfl
  | number .nan => rfl
  | unary op e => by simp only [spelled, value, value_spelled e]
  | binary op l r => by simp only [spelled, value, value_spelled l, value_spelled r]
  | choice c t e => by simp only [spelled, value, value_spelled c, value_spelled t, value_spelled e]
  | extreme f first more => by
    simp only [spelled, value, value_spelled first, values_spelledAll more]
  | whole f e => by simp only [spelled, value, value_spelled e]

/-- Spelling signs out does not change the values of arguments. -/
theorem values_spelledAll : ∀ es : List Expr, values (spelledAll es) = values es
  | [] => rfl
  | e :: rest => by simp only [spelledAll, values, value_spelled e, values_spelledAll rest]

end

end Expr

/-- A call takes arguments with their signs spelled out just if it takes them as they are. -/
theorem call?_spelled (f : Function) (es : List Expr) :
    f.call? (es.map Expr.spelled) = (f.call? es).map Expr.spelled := by
  rcases f with f | f
  · cases es with
    | nil => rfl
    | cons e es => simp [Function.call?, Expr.spelled, Expr.spelledAll_eq_map]
  · rcases es with _ | ⟨e, _ | ⟨e', es⟩⟩ <;> rfl

/-- Operands in a row are grouped the same with signs spelled out. -/
theorem groupLeft_spelled (first : Expr) (more : List (BinaryOp × Expr)) :
    Derivation.groupLeft first.spelled (more.map fun next => (next.1, next.2.spelled)) =
      (Derivation.groupLeft first more).spelled := by
  induction more generalizing first with
  | nil => rfl
  | cons next more ih => exact ih (.binary next.1 first next.2)

/-! ### Derivations with operands replaced -/

/-- What a construct is when operands have become unary. -/
abbrev Construct.refilled : Construct → Construct
  | primary => tier 6
  | c => c

/-- What a construct means with its numbers spelled. -/
def Construct.spelled : (c : Construct) → c.Meaning → c.refilled.Meaning
  | operators _, more => more.map fun next => (next.1, next.2.spelled)
  | arguments, es => es.map Expr.spelled
  | conditional, e => e.spelled
  | tier _, e => e.spelled
  | primary, e => e.spelled

namespace Derivation

variable {α β : Type}

/-- A derivation with its operands replaced. -/
def refill (unit : α → Derivation β (.tier 6)) : {c : Construct} → Derivation α c →
    Derivation β c.refilled
  | _, plain c => plain (c.refill unit)
  | _, choice c t e => choice (c.refill unit) (t.refill unit) (e.refill unit)
  | _, tier h first more => tier h (first.refill unit) (more.refill unit)
  | _, noOperator => noOperator
  | _, operator s op hs hl right more => operator s op hs hl (right.refill unit) (more.refill unit)
  | _, signed s op hs e => signed s op hs (e.refill unit)
  | _, unsigned p => p.refill unit
  | _, operand a => unit a
  | _, round e => unsigned (round (e.refill unit))
  | _, square e => unsigned (square (e.refill unit))
  | _, call text f hf first more => unsigned (call text f hf (first.refill unit) (more.refill unit))
  | _, noArgument => noArgument
  | _, argument e more => argument (e.refill unit) (more.refill unit)

/-- Putting units for operands expands each operand to what its unit derives. -/
theorem yield_refill (unit : α → Derivation β (.tier 6)) {c : Construct} (d : Derivation α c) :
    (d.refill unit).yield = d.yield.flatMap (Terminal.expand fun a => (unit a).yield) := by
  induction d with
  | plain c ih => exact ih
  | choice c t e ihc iht ihe => simp [refill, yield, ihc, iht, ihe, Terminal.expand]
  | tier h first more ih ihm => simp [refill, yield, ih, ihm]
  | noOperator => rfl
  | operator s op hs hl right more ih ihm => simp [refill, yield, ih, ihm, Terminal.expand]
  | signed s op hs e ih => simp [refill, yield, ih, Terminal.expand]
  | unsigned p ih => exact ih
  | operand a => simp [refill, yield, Terminal.expand]
  | round e ih => simp [refill, yield, ih, Terminal.expand]
  | square e ih => simp [refill, yield, ih, Terminal.expand]
  | call text f hf first more ih ihm => simp [refill, yield, ih, ihm, Terminal.expand]
  | noArgument => rfl
  | argument e more ih ihm => simp [refill, yield, ih, ihm, Terminal.expand]

/-- **The tree stays the same up to signs,** if each operand is replaced by the spelling of its
number. -/
theorem tree?_refill {unit : α → Derivation β (.tier 6)} {leaf : α → Binary64} {leaf' : β → Binary64}
    {c : Construct} (d : Derivation α c) (h : ∀ a, .operand a ∈ d.yield →
      (unit a).tree? leaf' = some (Expr.number (leaf a)).spelled) :
    (d.refill unit).tree? leaf' = (d.tree? leaf).map c.spelled := by
  induction d with
  | plain c ih => exact ih h
  | choice c t e ihc iht ihe =>
    simp only [yield, List.mem_append, List.mem_cons, reduceCtorEq, false_or] at h
    rw [refill, tree?, tree?, ihc fun a ha => h a (.inl ha), iht fun a ha => h a (.inr (.inl ha)),
      ihe fun a ha => h a (.inr (.inr ha))]
    cases c.tree? leaf <;> cases t.tree? leaf <;> cases e.tree? leaf <;> rfl
  | tier hlt first more ih ihm =>
    simp only [yield, List.mem_append] at h
    rw [refill, tree?, tree?, ih fun a ha => h a (.inl ha), ihm fun a ha => h a (.inr ha)]
    cases first.tree? leaf with
    | none => rfl
    | some x =>
      cases more.tree? leaf with
      | none => rfl
      -- Signs are spelled out inside the operands, so grouping them comes to the same.
      | some xs => exact congrArg some (groupLeft_spelled x xs)
  | noOperator => rfl
  | operator s op hs hl right more ih ihm =>
    simp only [yield, List.mem_append, List.mem_cons, reduceCtorEq, false_or] at h
    rw [refill, tree?, tree?, ih fun a ha => h a (.inl ha), ihm fun a ha => h a (.inr ha)]
    cases right.tree? leaf <;> cases more.tree? leaf <;> rfl
  | signed s op hs e ih =>
    simp only [yield, List.mem_cons, reduceCtorEq, false_or] at h
    rw [refill, tree?, tree?, ih h]
    cases e.tree? leaf <;> rfl
  | unsigned p ih => exact ih h
  | operand a => exact h a (by simp [yield])
  | round e ih =>
    simp only [yield, List.mem_append, List.mem_cons, reduceCtorEq, false_or, List.not_mem_nil,
      or_false] at h
    exact ih h
  | square e ih =>
    simp only [yield, List.mem_append, List.mem_cons, reduceCtorEq, false_or, List.not_mem_nil,
      or_false] at h
    exact ih h
  | call text f hf first more ih ihm =>
    simp only [yield, List.mem_append, List.mem_cons, reduceCtorEq, false_or, List.not_mem_nil,
      or_false] at h
    rw [refill, tree?, tree?, tree?, ih fun a ha => h a (.inl ha), ihm fun a ha => h a (.inr ha)]
    cases first.tree? leaf with
    | none => rfl
    | some x =>
      cases more.tree? leaf with
      | none => rfl
      | some xs => exact call?_spelled f (x :: xs)
  | noArgument => rfl
  | argument e more ih ihm =>
    simp only [yield, List.mem_append, List.mem_cons, reduceCtorEq, false_or] at h
    rw [refill, tree?, tree?, ih fun a ha => h a (.inl ha), ihm fun a ha => h a (.inr ha)]
    cases e.tree? leaf <;> cases more.tree? leaf <;> rfl

end Derivation
end Formula
end Tariff
