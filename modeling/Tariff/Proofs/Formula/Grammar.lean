/-
# The grammar of formulas

A derivation is a concrete tree: it keeps every symbol of the text, brackets too, and is built by the
productions alone, without looking at what comes next.

| construct | productions |
| --- | --- |
| `conditional` | `tier 0`, or `tier 0 ? conditional : conditional` |
| `tier k`, `k < 6` | `tier (k + 1)` and `operators k` |
| `operators k` | nothing, or an operator of level `k`, `tier (k + 1)` and `operators k` |
| `tier 6` | `-`, `+` or `!` before `tier 6`, or `primary` |
| `primary` | an operand, `( conditional )`, `[ conditional ]`, or a function name before `( conditional arguments )` |
| `arguments` | nothing, or `, conditional arguments` |

The tiers from 0 to 5 are the levels of `BinaryOp.level`, from `||` to `*`, and tier 6 is that of the
unary operators. Of a derivation one reads off what it derives (`yield`), its tree (`tree?`), how deep
it is nested (`nesting`), and whether each function gets as many arguments as it takes (`callsFit`).
What the operands are is left open, so that the same grammar serves formulas and templates.
-/

import Tariff.Formula.Parser

namespace Tariff
namespace Formula

/-- What a derivation is made of: an operand, a name or a symbol. -/
inductive Terminal (α : Type) where
  | operand (a : α)
  | name (text : List Char)
  | symbol (s : Symbol)
  deriving DecidableEq, Repr

/-- Rename the operand that a terminal is. -/
def Terminal.map {α β : Type} (f : α → β) : Terminal α → Terminal β
  | operand a => .operand (f a)
  | name text => .name text
  | symbol s => .symbol s

/-- A renamed terminal is an operand just if it was one before. -/
theorem Terminal.map_eq_operand_iff {α β : Type} {f : α → β} {t : Terminal α} {b : β} :
    t.map f = .operand b ↔ ∃ a, t = .operand a ∧ f a = b := by
  cases t <;> simp [map]

theorem Terminal.map_eq_name_iff {α β : Type} {f : α → β} {t : Terminal α} {text : List Char} :
    t.map f = .name text ↔ t = .name text := by
  cases t <;> simp [map]

theorem Terminal.map_eq_symbol_iff {α β : Type} {f : α → β} {t : Terminal α} {s : Symbol} :
    t.map f = .symbol s ↔ t = .symbol s := by
  cases t <;> simp [map]

/-- Replace the operand that a terminal is by terminals. -/
def Terminal.expand {α β : Type} (f : α → List (Terminal β)) : Terminal α → List (Terminal β)
  | operand a => f a
  | name text => [.name text]
  | symbol s => [.symbol s]

def Terminal.isSymbol {α : Type} : Terminal α → Bool
  | symbol _ => true
  | _ => false

/-- Of two neighbours one is a symbol. -/
def Spaced {α : Type} : List (Terminal α) → Prop
  | t :: u :: ts => (t.isSymbol ∨ u.isSymbol) ∧ Spaced (u :: ts)
  | _ => True

theorem spaced_symbol_cons {α : Type} {s : Symbol} {ts : List (Terminal α)} (h : Spaced ts) :
    Spaced (.symbol s :: ts) := by
  cases ts with
  | nil => trivial
  | cons t ts => exact ⟨.inl rfl, h⟩

theorem Spaced.tail {α : Type} {t : Terminal α} {ts : List (Terminal α)} (h : Spaced (t :: ts)) :
    Spaced ts := by
  cases ts with
  | nil => trivial
  | cons u ts => exact h.2

theorem Spaced.drop {α : Type} {ts us : List (Terminal α)} (h : Spaced (ts ++ us)) : Spaced us := by
  induction ts with
  | nil => exact h
  | cons t ts ih => exact ih h.tail

/-- Only a symbol follows what is none. -/
theorem Spaced.next {α : Type} {t : Terminal α} {ts : List (Terminal α)} (h : Spaced (t :: ts))
    (ht : t.isSymbol = false) : ∀ u ∈ ts.head?, u.isSymbol := by
  cases ts with
  | nil => simp
  | cons u ts =>
    rintro _ ⟨⟩
    exact h.1.resolve_left (by simp [ht])

/-- What begins with a symbol may follow anything. -/
theorem Spaced.append {α : Type} : ∀ {ts us : List (Terminal α)}, Spaced ts → Spaced us →
    (∀ u ∈ us.head?, u.isSymbol) → Spaced (ts ++ us)
  | [], _, _, hu, _ => hu
  | [_], [], _, _, _ => trivial
  | [_], _ :: _, _, hu, hs => ⟨.inr (hs _ rfl), hu⟩
  | _ :: _ :: _, _, ht, hu, hs => ⟨ht.1, Spaced.append ht.2 hu hs⟩

/-- Number lexemes are the operands of formulas. -/
def Lexeme.terminal : Lexeme → Terminal (List Char)
  | number text => .operand text
  | name text => .name text
  | symbol s => .symbol s

def Token.terminal (t : Token) : Terminal (List Char) := t.lexeme.terminal

inductive Construct where
  | conditional
  | tier (level : Nat)
  | operators (level : Nat)
  | primary
  | arguments
  deriving DecidableEq, Repr

/-- What a construct means: operators wait for the operand to their left. -/
abbrev Construct.Meaning : Construct → Type
  | operators _ => List (BinaryOp × Expr)
  | arguments => List Expr
  | conditional => Expr
  | tier _ => Expr
  | primary => Expr

/-- The fewest arguments of a function, and the most if there is a bound. -/
def Function.arity : Function → Nat × Option Nat
  | extreme _ => (1, none)
  | whole _ => (1, some 1)

/-- Whether a function takes a number of arguments. -/
def Function.takes (f : Function) (count : Nat) : Bool :=
  f.arity.1 ≤ count && f.arity.2.all (count ≤ ·)

/-- A call gives a tree just for the numbers of arguments that the function takes. -/
theorem Function.isSome_call? (f : Function) (es : List Expr) :
    (f.call? es).isSome = f.takes es.length := by
  rcases f with f | f
  · cases es <;> simp [call?, takes, arity]
  · rcases es with _ | ⟨e, _ | ⟨e', es⟩⟩ <;> simp [call?, takes, arity]

/-- Whether a text names a function. -/
def IsFunctionName (text : List Char) : Prop :=
  ∃ f, Function.ofName? (String.ofList text) = some f

inductive Derivation (α : Type) : Construct → Type where
  | plain (condition : Derivation α (.tier 0)) : Derivation α .conditional
  | choice (condition : Derivation α (.tier 0)) (consequent alternative : Derivation α .conditional) :
      Derivation α .conditional
  | tier {level : Nat} (h : level < 6) (first : Derivation α (.tier (level + 1)))
      (more : Derivation α (.operators level)) : Derivation α (.tier level)
  | noOperator {level : Nat} : Derivation α (.operators level)
  | operator {level : Nat} (s : Symbol) (op : BinaryOp) (hs : s.binary? = some op)
      (hl : op.level = level) (right : Derivation α (.tier (level + 1)))
      (more : Derivation α (.operators level)) : Derivation α (.operators level)
  | signed (s : Symbol) (op : UnaryOp) (hs : s.unary? = some op) (operand : Derivation α (.tier 6)) :
      Derivation α (.tier 6)
  | unsigned (p : Derivation α .primary) : Derivation α (.tier 6)
  | operand (a : α) : Derivation α .primary
  | round (e : Derivation α .conditional) : Derivation α .primary
  | square (e : Derivation α .conditional) : Derivation α .primary
  | call (text : List Char) (f : Function) (hf : Function.ofName? (String.ofList text) = some f)
      (first : Derivation α .conditional) (more : Derivation α .arguments) : Derivation α .primary
  | noArgument : Derivation α .arguments
  | argument (e : Derivation α .conditional) (more : Derivation α .arguments) :
      Derivation α .arguments

/-- A derivation of a whole formula. -/
abbrev Sentence (α : Type) := Derivation α .conditional

namespace Derivation

variable {α : Type}

/-- The terminals of a derivation, from left to right. -/
def yield : {c : Construct} → Derivation α c → List (Terminal α)
  | _, plain c => c.yield
  | _, choice c t e => c.yield ++ .symbol .question :: (t.yield ++ .symbol .colon :: e.yield)
  | _, tier _ first more => first.yield ++ more.yield
  | _, noOperator => []
  | _, operator s _ _ _ right more => .symbol s :: (right.yield ++ more.yield)
  | _, signed s _ _ e => .symbol s :: e.yield
  | _, unsigned p => p.yield
  | _, operand a => [.operand a]
  | _, round e => .symbol .openRound :: (e.yield ++ [.symbol .closeRound])
  | _, square e => .symbol .openSquare :: (e.yield ++ [.symbol .closeSquare])
  | _, call text _ _ first more =>
    .name text :: .symbol .openRound :: (first.yield ++ (more.yield ++ [.symbol .closeRound]))
  | _, noArgument => []
  | _, argument e more => .symbol .comma :: (e.yield ++ more.yield)

/-- The levels of nesting: one for each bracket pair, call and unary operator around a place, and one
for being a branch of a choice. -/
def nesting : {c : Construct} → Derivation α c → Nat
  | _, plain c => c.nesting
  | _, choice c t e => max c.nesting (max t.nesting e.nesting + 1)
  | _, tier _ first more => max first.nesting more.nesting
  | _, noOperator => 0
  | _, operator _ _ _ _ right more => max right.nesting more.nesting
  | _, signed _ _ _ e => e.nesting + 1
  | _, unsigned p => p.nesting
  | _, operand _ => 0
  | _, round e => e.nesting + 1
  | _, square e => e.nesting + 1
  | _, call _ _ _ first more => max first.nesting more.nesting + 1
  | _, noArgument => 0
  | _, argument e more => max e.nesting more.nesting

/-- The number of arguments behind the first. -/
def count : {c : Construct} → Derivation α c → Nat
  | _, argument _ more => more.count + 1
  | _, _ => 0

/-- Whether every function gets as many arguments as it takes. -/
def callsFit : {c : Construct} → Derivation α c → Bool
  | _, plain c => c.callsFit
  | _, choice c t e => c.callsFit && t.callsFit && e.callsFit
  | _, tier _ first more => first.callsFit && more.callsFit
  | _, noOperator => true
  | _, operator _ _ _ _ right more => right.callsFit && more.callsFit
  | _, signed _ _ _ e => e.callsFit
  | _, unsigned p => p.callsFit
  | _, operand _ => true
  | _, round e => e.callsFit
  | _, square e => e.callsFit
  | _, call _ f _ first more => f.takes (more.count + 1) && first.callsFit && more.callsFit
  | _, noArgument => true
  | _, argument e more => e.callsFit && more.callsFit

/-- An operand with what follows it on its level, grouped to the left. -/
def groupLeft (first : Expr) (more : List (BinaryOp × Expr)) : Expr :=
  more.foldl (fun left next => .binary next.1 left next.2) first

/-- The tree, when `leaf` gives the numbers of the operands; there is none if some function gets too
many arguments or too few. Brackets leave nothing behind. -/
def tree? (leaf : α → Binary64) : {c : Construct} → Derivation α c → Option c.Meaning
  | _, plain c => c.tree? leaf
  | _, choice c t e => do return .choice (← c.tree? leaf) (← t.tree? leaf) (← e.tree? leaf)
  | _, tier _ first more => do return groupLeft (← first.tree? leaf) (← more.tree? leaf)
  | _, noOperator => some []
  | _, operator _ op _ _ right more => do return (op, ← right.tree? leaf) :: (← more.tree? leaf)
  | _, signed _ op _ e => do return .unary op (← e.tree? leaf)
  | _, unsigned p => p.tree? leaf
  | _, operand a => some (.number (leaf a))
  | _, round e => e.tree? leaf
  | _, square e => e.tree? leaf
  | _, call _ f _ first more => do f.call? ((← first.tree? leaf) :: (← more.tree? leaf))
  | _, noArgument => some []
  | _, argument e more => do return (← e.tree? leaf) :: (← more.tree? leaf)

section Tree

variable {leaf : α → Binary64} {c : Derivation α (.tier 0)} {t e : Derivation α .conditional}

-- The equations of the functions above are made once, here, and not by each of the many proofs that need them.
attribute [local simp] yield nesting count callsFit tree? in
/-- A choice has a tree just if its three parts have one, and puts them together. -/
theorem tree?_choice_eq_some_iff {x : Expr} : (choice c t e).tree? leaf = some x ↔
    ∃ c', c.tree? leaf = some c' ∧ ∃ t', t.tree? leaf = some t' ∧ ∃ e', e.tree? leaf = some e' ∧
      .choice c' t' e' = x := by
  simp only [tree?, Option.bind_eq_bind, Option.pure_def, Option.bind_eq_some_iff, Option.some.injEq]

/-- Operands in a row have a tree just if the first and the others have theirs, and group them to the left. -/
theorem tree?_tier_eq_some_iff {level : Nat} {h : level < 6} {first : Derivation α (.tier (level + 1))}
    {more : Derivation α (.operators level)} {x : Expr} : (tier h first more).tree? leaf = some x ↔
    ∃ left, first.tree? leaf = some left ∧ ∃ xs, more.tree? leaf = some xs ∧ groupLeft left xs = x := by
  simp only [tree?, Option.bind_eq_bind, Option.pure_def, Option.bind_eq_some_iff, Option.some.injEq]

/-- An operator waits with the tree to its right, in front of those that follow. -/
theorem tree?_operator_eq_some_iff {level : Nat} {s : Symbol} {op : BinaryOp} {hs : s.binary? = some op}
    {hl : op.level = level} {right : Derivation α (.tier (level + 1))} {more : Derivation α (.operators level)}
    {xs : List (BinaryOp × Expr)} : (operator s op hs hl right more).tree? leaf = some xs ↔
    ∃ x, right.tree? leaf = some x ∧ ∃ xs', more.tree? leaf = some xs' ∧ (op, x) :: xs' = xs := by
  simp only [tree?, Option.bind_eq_bind, Option.pure_def, Option.bind_eq_some_iff, Option.some.injEq]

/-- An operator in front of an operand stands above the tree of the operand. -/
theorem tree?_signed_eq_some_iff {s : Symbol} {op : UnaryOp} {hs : s.unary? = some op} {d : Derivation α (.tier 6)}
    {x : Expr} : (signed s op hs d).tree? leaf = some x ↔ ∃ y, d.tree? leaf = some y ∧ .unary op y = x := by
  simp only [tree?, Option.bind_eq_bind, Option.pure_def, Option.bind_eq_some_iff, Option.some.injEq]

/-- A call has a tree just if its arguments have theirs and the function takes as many. -/
theorem tree?_call_eq_some_iff {text : List Char} {f : Function} {hf : Function.ofName? (String.ofList text) = some f}
    {more : Derivation α .arguments} {x : Expr} : (call text f hf e more).tree? leaf = some x ↔
    ∃ y, e.tree? leaf = some y ∧ ∃ ys, more.tree? leaf = some ys ∧ f.call? (y :: ys) = some x := by
  simp only [tree?, Option.bind_eq_bind, Option.bind_eq_some_iff]

/-- A further argument has its tree in front of those that follow. -/
theorem tree?_argument_eq_some_iff {more : Derivation α .arguments} {xs : List Expr} :
    (argument e more).tree? leaf = some xs ↔
    ∃ x, e.tree? leaf = some x ∧ ∃ xs', more.tree? leaf = some xs' ∧ x :: xs' = xs := by
  simp only [tree?, Option.bind_eq_bind, Option.pure_def, Option.bind_eq_some_iff, Option.some.injEq]

end Tree

/-- As many trees come out of the further arguments as there are arguments. -/
theorem length_of_tree? {leaf : α → Binary64} : ∀ (d : Derivation α .arguments) {es : List Expr},
    d.tree? leaf = some es → es.length = d.count
  | noArgument, _, h => by
    obtain rfl := Option.some.inj h
    rfl
  | argument e more, es, h => by
    obtain ⟨x, -, xs, hxs, rfl⟩ := tree?_argument_eq_some_iff.1 h
    rw [List.length_cons, length_of_tree? more hxs, count]

/-- **A derivation has a tree just if its calls fit.** Nothing else can go wrong in making the tree, so counting
arguments decides it without the numbers of the operands. -/
theorem isSome_tree? (leaf : α → Binary64) {c : Construct} (d : Derivation α c) :
    (d.tree? leaf).isSome = d.callsFit := by
  induction d with
  | plain c ih => exact ih
  | choice c t e ihc iht ihe =>
    rw [callsFit, ← ihc, ← iht, ← ihe, tree?]
    cases c.tree? leaf <;> cases t.tree? leaf <;> cases e.tree? leaf <;> rfl
  | tier h first more ih ihm =>
    rw [callsFit, ← ih, ← ihm, tree?]
    cases first.tree? leaf <;> cases more.tree? leaf <;> rfl
  | noOperator => rfl
  | operator s op hs hl right more ih ihm =>
    rw [callsFit, ← ih, ← ihm, tree?]
    cases right.tree? leaf <;> cases more.tree? leaf <;> rfl
  | signed s op hs e ih =>
    rw [callsFit, ← ih, tree?]
    cases e.tree? leaf <;> rfl
  | unsigned p ih => exact ih
  | operand a => rfl
  | round e ih => exact ih
  | square e ih => exact ih
  | call text f hf first more ih ihm =>
    rw [callsFit, ← ih, ← ihm, tree?]
    cases hx : first.tree? leaf with
    | none => simp
    | some x =>
      cases hxs : more.tree? leaf with
      | none => simp
      | some xs => simp [Function.isSome_call?, length_of_tree? more hxs]
  | noArgument => rfl
  | argument e more ih ihm =>
    rw [callsFit, ← ih, ← ihm, tree?]
    cases e.tree? leaf <;> cases more.tree? leaf <;> rfl

/-! ### Neighbours -/

/-- Operators and further arguments are nothing or begin with a symbol. -/
theorem head?_yield {c : Construct} (d : Derivation α c) (hc : c = .arguments ∨ ∃ k, c = .operators k) :
    ∀ t ∈ d.yield.head?, t.isSymbol := by
  cases d with
  | noOperator => simp [yield]
  | operator => simp [yield, Terminal.isSymbol]
  | noArgument => simp [yield]
  | argument => simp [yield, Terminal.isSymbol]
  | _ => simp at hc

/-- **Of two neighbours in a derivation one is a symbol.** So numbers and names never follow each other, and a
text in which they would cannot be read. -/
theorem spaced_yield {c : Construct} (d : Derivation α c) : Spaced d.yield := by
  induction d with
  | plain c ih => exact ih
  | choice c t e ihc iht ihe =>
    exact ihc.append (spaced_symbol_cons (iht.append (spaced_symbol_cons ihe) (by simp [Terminal.isSymbol])))
      (by simp [Terminal.isSymbol])
  | tier h first more ih ihm => exact ih.append ihm (head?_yield more (.inr ⟨_, rfl⟩))
  | noOperator => trivial
  | operator s op hs hl right more ih ihm =>
    exact spaced_symbol_cons (ih.append ihm (head?_yield more (.inr ⟨_, rfl⟩)))
  | signed s op hs e ih => exact spaced_symbol_cons ih
  | unsigned p ih => exact ih
  | operand a => trivial
  | round e ih => exact spaced_symbol_cons (ih.append trivial (by simp [Terminal.isSymbol]))
  | square e ih => exact spaced_symbol_cons (ih.append trivial (by simp [Terminal.isSymbol]))
  | call text f hf first more ih ihm =>
    have harguments : Spaced (first.yield ++ more.yield) :=
      ih.append ihm (head?_yield more (.inl rfl))
    rw [yield, ← List.append_assoc]
    exact ⟨.inr rfl, spaced_symbol_cons (harguments.append trivial (by simp [Terminal.isSymbol]))⟩
  | noArgument => trivial
  | argument e more ih ihm => exact spaced_symbol_cons (ih.append ihm (head?_yield more (.inl rfl)))

/-- The names of a derivation are those of functions. -/
theorem isFunctionName_of_mem_yield {text : List Char} {c : Construct} (d : Derivation α c)
    (h : .name text ∈ d.yield) : IsFunctionName text := by
  induction d with
  | plain c ih => exact ih h
  | choice c t e ihc iht ihe =>
    simp only [yield, List.mem_append, List.mem_cons, reduceCtorEq, false_or] at h
    rcases h with h | h | h
    · exact ihc h
    · exact iht h
    · exact ihe h
  | tier _ first more ih ihm => exact (List.mem_append.1 h).elim ih ihm
  | noOperator => simp [yield] at h
  | operator s op hs hl right more ih ihm =>
    simp only [yield, List.mem_cons, reduceCtorEq, false_or] at h
    exact (List.mem_append.1 h).elim ih ihm
  | signed s op hs e ih =>
    simp only [yield, List.mem_cons, reduceCtorEq, false_or] at h
    exact ih h
  | unsigned p ih => exact ih h
  | operand a => simp [yield] at h
  | round e ih =>
    simp only [yield, List.mem_cons, List.mem_append, reduceCtorEq, false_or, or_false,
      List.not_mem_nil] at h
    exact ih h
  | square e ih =>
    simp only [yield, List.mem_cons, List.mem_append, reduceCtorEq, false_or, or_false,
      List.not_mem_nil] at h
    exact ih h
  | call name f hf first more ih ihm =>
    simp only [yield, List.mem_cons, List.mem_append, reduceCtorEq, false_or, or_false,
      List.not_mem_nil, Terminal.name.injEq] at h
    rcases h with rfl | h | h
    · exact ⟨f, hf⟩
    · exact ih h
    · exact ihm h
  | noArgument => simp [yield] at h
  | argument e more ih ihm =>
    simp only [yield, List.mem_cons, reduceCtorEq, false_or] at h
    exact (List.mem_append.1 h).elim ih ihm

end Derivation
end Formula
end Tariff
