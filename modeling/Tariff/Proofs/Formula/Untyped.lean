/-
# Trees without types

Trees of formulas are typed: an operator, a function and the arguments of a call fit each other by construction,
and every operation on numbers is total. A `Node` has none of that. It names its operators and functions by texts,
takes arguments in any number and may lack a child, and running it works with operations that can be refused
(`Binary64.Machine`) behind their guards.

| mishap | of |
| --- | --- |
| `missing` | a child that is not there |
| `unknownOperator`, `unknownFunction` | a name that no table has |
| `argumentCount` | a call of a function of one argument |
| `refused` | an operation on numbers |

The trees of formulas are the well-formed nodes (`Node.wellFormed_iff`), and run as nodes they have their values
and no mishap (`Expr.run_node`).
-/

import Tariff.Proofs.Formula.Grammar
import Tariff.Proofs.Names
import Tariff.Proofs.Number.Guards

namespace Tariff
namespace Formula

open Binary64 (Refusal Guarded.divide Guarded.remainder Guarded.floor Guarded.ceil Guarded.round Guarded.best)

/-! ### Nodes -/

/-- A tree with names for its operators and functions. -/
inductive Node where
  | missing
  | number (x : Binary64)
  | unary (op : String) (operand : Node)
  | binary (op : String) (left right : Node)
  | choice (condition consequent alternative : Node)
  | call (name : String) (arguments : List Node)

/-- What can happen to a tree as it is run. -/
inductive Mishap where
  | missing
  | unknownOperator (op : String)
  | unknownFunction (name : String)
  | argumentCount (name : String) (count : Nat)
  | refused (refusal : Refusal)

/-- The operators that take both operands. -/
def operations : List (String × (Binary64 → Binary64 → Except Refusal Binary64)) :=
  [("+", fun x y => .ok (x + y)), ("-", fun x y => .ok (x - y)), ("*", fun x y => .ok (x * y)),
    ("/", Guarded.divide), ("%", Guarded.remainder),
    ("<", fun x y => .ok (ofBool (x.lt y))), (">", fun x y => .ok (ofBool (y.lt x))),
    ("<=", fun x y => .ok (ofBool (x.le y))), (">=", fun x y => .ok (ofBool (y.le x))),
    ("==", fun x y => .ok (ofBool (x.eq y))), ("===", fun x y => .ok (ofBool (x.eq y))),
    ("!=", fun x y => .ok (ofBool !x.eq y)), ("!==", fun x y => .ok (ofBool !x.eq y))]

/-- A function of one argument. -/
def single (name : String) (f : Binary64 → Except Refusal Binary64) : List Binary64 → Except Mishap Binary64
  | [x] => (f x).mapError .refused
  | xs => .error (.argumentCount name xs.length)

def functions : List (String × (List Binary64 → Except Mishap Binary64)) :=
  [("max", fun xs => (Guarded.best (fun v best => best.lt v) xs).mapError .refused),
    ("min", fun xs => (Guarded.best Binary64.lt xs).mapError .refused),
    ("floor", single "floor" Guarded.floor), ("ceil", single "ceil" Guarded.ceil),
    ("round", single "round" Guarded.round)]

/-- The fewest arguments of a function, and the most of one that has a limit. -/
def arities : List (String × Nat × Option Nat) :=
  [("max", 1, none), ("min", 1, none), ("floor", 1, some 1), ("ceil", 1, some 1), ("round", 1, some 1)]

/-! ### The table of arguments -/

/-- The table has every function under its name, with the numbers of arguments that it takes. -/
theorem lookup?_arities (f : Function) : lookup? f.name arities = some f.arity := by
  rcases f with (_ | _) | (_ | _ | _) <;> rfl

/-- The table has no name that is not one of a function. -/
theorem exists_function {name : String} (h : (lookup? name arities).isSome) : ∃ f ∈ Function.all, f.name = name := by
  have hnames : ∀ name ∈ arities.map Prod.fst, name ∈ Function.all.map Function.name := by decide
  exact List.mem_map.1 (hnames _ (isSome_lookup?.1 h))

/-- A function takes as many arguments as the table says. -/
theorem takes_iff {f : Function} {count : Nat} : f.takes count = true ↔
    ∃ least most, lookup? f.name arities = some (least, most) ∧ least ≤ count ∧ ∀ n ∈ most, count ≤ n := by
  have htakes : f.takes count = true ↔ f.arity.1 ≤ count ∧ ∀ n ∈ f.arity.2, count ≤ n := by
    simp [Function.takes, Option.all_eq_true]
  rw [lookup?_arities, htakes]
  constructor
  · rintro ⟨hleast, hmost⟩
    exact ⟨_, _, rfl, hleast, hmost⟩
  · rintro ⟨least, most, harity, hleast, hmost⟩
    rw [Option.some.inj harity]
    exact ⟨hleast, hmost⟩

/-! ### Running a node -/

namespace Node

mutual

/-- The number of a tree. The right operand of `&&` and `||` and the branches of a choice are run if they are
needed, and an unknown operator in front of an operand is passed over. -/
def run : Node → Except Mishap Binary64
  | missing => .error .missing
  | number x => .ok x
  | unary op e => do
    let x ← e.run
    if op = "-" then return -x
    if op = "!" then return if x.isTrue then .zero else .one
    return x
  | binary op l r => do
    let x ← l.run
    if op = "&&" then
      if x.isTrue then r.run else return x
    else if op = "||" then
      if x.isTrue then return x else r.run
    else
      match lookup? op operations with
      | some f => do
        let y ← r.run
        (f x y).mapError .refused
      | none => .error (.unknownOperator op)
  | choice c t e => do
    let x ← c.run
    if x.isTrue then t.run else e.run
  | call name arguments =>
    match lookup? name functions with
    | some f => do
      let xs ← runAll arguments
      f xs
    | none => .error (.unknownFunction name)

def runAll : List Node → Except Mishap (List Binary64)
  | [] => .ok []
  | e :: rest => do
    let x ← e.run
    let xs ← runAll rest
    return x :: xs

end

/-- No child is missing, and names and numbers of arguments are those of the tables. -/
inductive WellFormed : Node → Prop where
  | number (x : Binary64) : WellFormed (number x)
  | unary {op : String} {e : Node} (hop : op ∈ ["-", "+", "!"]) (he : e.WellFormed) : WellFormed (unary op e)
  | binary {op : String} {l r : Node} (hop : op ∈ ["&&", "||"] ∨ op ∈ operations.map Prod.fst) (hl : l.WellFormed)
      (hr : r.WellFormed) : WellFormed (binary op l r)
  | choice {c t e : Node} (hc : c.WellFormed) (ht : t.WellFormed) (he : e.WellFormed) : WellFormed (choice c t e)
  | call {name : String} {arguments : List Node} {least : Nat} {most : Option Nat}
      (hname : lookup? name arities = some (least, most)) (hleast : least ≤ arguments.length)
      (hmost : ∀ n ∈ most, arguments.length ≤ n) (hall : ∀ e ∈ arguments, e.WellFormed) :
      WellFormed (call name arguments)

section WellFormed

variable {op name : String} {e l r c t : Node} {arguments : List Node}

/-- An operator in front of an operand has to be one of the three. -/
theorem wellFormed_unary_iff : (unary op e).WellFormed ↔ op ∈ ["-", "+", "!"] ∧ e.WellFormed := by
  constructor
  · rintro (_ | ⟨hop, he⟩)
    exact ⟨hop, he⟩
  · rintro ⟨hop, he⟩
    exact .unary hop he

/-- An operator of two operands has to be in the table, or one of the two that may leave the right one out. -/
theorem wellFormed_binary_iff : (binary op l r).WellFormed ↔
    (op ∈ ["&&", "||"] ∨ op ∈ operations.map Prod.fst) ∧ l.WellFormed ∧ r.WellFormed := by
  constructor
  · rintro (_ | _ | ⟨hop, hl, hr⟩)
    exact ⟨hop, hl, hr⟩
  · rintro ⟨hop, hl, hr⟩
    exact .binary hop hl hr

/-- A choice is as well formed as its three parts. -/
theorem wellFormed_choice_iff : (choice c t e).WellFormed ↔ c.WellFormed ∧ t.WellFormed ∧ e.WellFormed := by
  constructor
  · rintro (_ | _ | _ | ⟨hc, ht, he⟩)
    exact ⟨hc, ht, he⟩
  · rintro ⟨hc, ht, he⟩
    exact .choice hc ht he

/-- A call has to be of a name in the table, with as many arguments as the table says. -/
theorem wellFormed_call_iff : (call name arguments).WellFormed ↔
    (∃ least most, lookup? name arities = some (least, most) ∧ least ≤ arguments.length ∧
      ∀ n ∈ most, arguments.length ≤ n) ∧ ∀ e ∈ arguments, e.WellFormed := by
  constructor
  · rintro (_ | _ | _ | _ | ⟨hname, hleast, hmost, hall⟩)
    exact ⟨⟨_, _, hname, hleast, hmost⟩, hall⟩
  · rintro ⟨⟨least, most, hname, hleast, hmost⟩, hall⟩
    exact .call hname hleast hmost hall

end WellFormed

/-- An operand with what follows it on its level, grouped to the left. -/
def groupLeft (first : Node) (more : List (String × Node)) : Node :=
  more.foldl (fun left next => .binary next.1 left next.2) first

/-- Operands in a row are well formed together just if each of them is, and the operators between them are. -/
theorem wellFormed_groupLeft_iff {more : List (String × Node)} : ∀ {first : Node},
    (groupLeft first more).WellFormed ↔ first.WellFormed ∧
      ∀ next ∈ more, (next.1 ∈ ["&&", "||"] ∨ next.1 ∈ operations.map Prod.fst) ∧ next.2.WellFormed := by
  induction more with
  | nil => simp [groupLeft]
  | cons next more ih =>
    intro first
    have hcons : groupLeft first (next :: more) = groupLeft (.binary next.1 first next.2) more := rfl
    rw [hcons, ih, wellFormed_binary_iff, List.forall_mem_cons]
    constructor
    · rintro ⟨⟨hop, hl, hr⟩, hmore⟩
      exact ⟨hl, ⟨hop, hr⟩, hmore⟩
    · rintro ⟨hl, ⟨hop, hr⟩, hmore⟩
      exact ⟨⟨hop, hl, hr⟩, hmore⟩

end Node

/-! ### The trees of formulas -/

namespace Expr

mutual

/-- A tree as one without types. -/
def node : Expr → Node
  | number x => .number x
  | unary op e => .unary op.symbol e.node
  | binary op l r => .binary op.symbol l.node r.node
  | choice c t e => .choice c.node t.node e.node
  | extreme f first more => .call (Function.extreme f).name (first.node :: nodes more)
  | whole f e => .call (Function.whole f).name [e.node]

def nodes : List Expr → List Node
  | [] => []
  | e :: rest => e.node :: nodes rest

end

/-- The call that is taken is of that function and of those arguments. -/
theorem node_of_call? {f : Function} {es : List Expr} {e : Expr} (h : f.call? es = some e) :
    e.node = .call f.name (Expr.nodes es) := by
  rcases f with f | f
  · rcases es with _ | ⟨first, more⟩
    · simp [Function.call?] at h
    · obtain rfl := Option.some.inj h
      rfl
  · rcases es with _ | ⟨argument, _ | ⟨second, more⟩⟩
    · simp [Function.call?] at h
    · obtain rfl := Option.some.inj h
      rfl
    · simp [Function.call?] at h

/-- Every operator that takes both operands is in the table under its symbol, and does what it does in a typed
tree, without being refused. -/
theorem lookup?_operations {op : BinaryOp} (hand : op ≠ .and) (hor : op ≠ .or) :
    ∃ f, lookup? op.symbol operations = some f ∧ ∀ x y, f x y = .ok (op.apply x y) := by
  cases op with
  | and => exact absurd rfl hand
  | or => exact absurd rfl hor
  | divide => exact ⟨_, rfl, Binary64.guarded_divide⟩
  | modulo => exact ⟨_, rfl, Binary64.guarded_remainder⟩
  | _ => exact ⟨_, rfl, fun _ _ => rfl⟩

/-- The table has the functions of any number of arguments; from one argument on they are not refused. -/
theorem lookup?_functions_extreme (f : Extreme) : ∃ g, lookup? (Function.extreme f).name functions = some g ∧
    ∀ x xs, g (x :: xs) = .ok (f.apply x xs) := by
  cases f with
  | max =>
    refine ⟨_, rfl, fun x xs => ?_⟩
    rw [Binary64.guarded_best]
    rfl
  | min =>
    refine ⟨_, rfl, fun x xs => ?_⟩
    rw [Binary64.guarded_best]
    rfl

/-- The table has the functions of one argument, and for one they are not refused. -/
theorem lookup?_functions_whole (f : Whole) : ∃ g, lookup? (Function.whole f).name functions = some g ∧
    ∀ x, g [x] = .ok (f.apply x) := by
  cases f with
  | floor => exact ⟨_, rfl, fun x => congrArg (Except.mapError _) (Binary64.guarded_floor x)⟩
  | ceil => exact ⟨_, rfl, fun x => congrArg (Except.mapError _) (Binary64.guarded_ceil x)⟩
  | round => exact ⟨_, rfl, fun x => congrArg (Except.mapError _) (Binary64.guarded_round x)⟩

/-! ### Nothing happens to them -/

/-- An operator in front of an operand that is run to a number is run to what it makes of the number. -/
theorem run_unary {e : Node} {x : Binary64} (he : e.run = .ok x) (op : UnaryOp) :
    (Node.unary op.symbol e).run = .ok (op.apply x) := by
  rw [Node.run, he, ok_bind]
  cases op with
  | minus => rfl
  | plus => rfl
  | not =>
    have hnot : (if x.isTrue then Binary64.zero else .one) = UnaryOp.not.apply x := by
      rw [UnaryOp.apply, ofBool]
      cases x.isTrue <;> rfl
    exact congrArg Except.ok hnot

/-- An operator between operands that are run to numbers is run to what it makes of them. The right one is not
run where `&&` or `||` does not need it, which is all the same as it has no mishap. -/
theorem run_binary {l r : Node} {x y : Binary64} (hl : l.run = .ok x) (hr : r.run = .ok y) (op : BinaryOp) :
    (Node.binary op.symbol l r).run = .ok (op.apply x y) := by
  rw [Node.run, hl, ok_bind]
  by_cases hand : op = .and
  · subst hand
    rw [if_pos (show BinaryOp.and.symbol = "&&" from rfl), hr, BinaryOp.apply, apply_ite Except.ok]
    rfl
  by_cases hor : op = .or
  · subst hor
    rw [if_neg (by decide), if_pos (show BinaryOp.or.symbol = "||" from rfl), hr, BinaryOp.apply,
      apply_ite Except.ok]
    rfl
  obtain ⟨f, hf, happly⟩ := lookup?_operations hand hor
  have hsymbol : op.symbol ≠ "&&" ∧ op.symbol ≠ "||" := by
    cases op <;> simp_all [BinaryOp.symbol]
  rw [if_neg hsymbol.1, if_neg hsymbol.2, hf]
  simp only [hr, ok_bind, happly]
  rfl

mutual

/-- **The tree of a formula is run to its value.** By induction on the tree: its names are in the tables, its
calls have arguments enough, and no operation behind its guards is refused. -/
theorem run_node : ∀ e : Expr, e.node.run = .ok e.value
  | number x => rfl
  | unary op e => run_unary (run_node e) op
  | binary op l r => run_binary (run_node l) (run_node r) op
  | choice c t e => by
    rw [node, Node.run, run_node c, ok_bind, value, run_node t, run_node e, apply_ite Except.ok]
  | extreme f first more => by
    obtain ⟨g, hg, happly⟩ := lookup?_functions_extreme f
    rw [node, Node.run, hg, Node.runAll, run_node first, ok_bind, runAll_nodes more, ok_bind]
    exact happly _ _
  | whole f e => by
    obtain ⟨g, hg, happly⟩ := lookup?_functions_whole f
    rw [node, Node.run, hg, Node.runAll, run_node e]
    exact happly _

/-- The arguments are run to their values, from left to right. -/
theorem runAll_nodes : ∀ es : List Expr, Node.runAll (nodes es) = .ok (values es)
  | [] => rfl
  | e :: rest => by
    rw [nodes, Node.runAll, run_node e, ok_bind, runAll_nodes rest, ok_bind, values]
    rfl

end

mutual

/-- The tree of a formula is well formed: its type allows for nothing else. -/
theorem wellFormed_node : ∀ e : Expr, e.node.WellFormed
  | number x => .number x
  | unary op e => .unary (by cases op <;> decide) (wellFormed_node e)
  | binary op l r => .binary (by cases op <;> decide) (wellFormed_node l) (wellFormed_node r)
  | choice c t e => .choice (wellFormed_node c) (wellFormed_node t) (wellFormed_node e)
  | extreme f first more => by
    refine .call (lookup?_arities (.extreme f)) (by simp) (by simp) fun e he => ?_
    rcases List.mem_cons.1 he with rfl | he
    · exact wellFormed_node first
    · exact wellFormed_nodes more e he
  | whole f e => by
    refine .call (lookup?_arities (.whole f)) (by simp) (by simp) fun e' he' => ?_
    rw [List.mem_singleton.1 he']
    exact wellFormed_node e

theorem wellFormed_nodes : ∀ es : List Expr, ∀ e ∈ nodes es, e.WellFormed
  | [] => by simp [nodes]
  | e :: rest => by
    intro e' he'
    rw [nodes] at he'
    rcases List.mem_cons.1 he' with rfl | he'
    · exact wellFormed_node e
    · exact wellFormed_nodes rest e' he'

end

end Expr

namespace Node

/-- The three signs are those of the typed trees. -/
theorem exists_unaryOp {op : String} (h : op ∈ ["-", "+", "!"]) : ∃ o : UnaryOp, o.symbol = op := by
  simp only [List.mem_cons, List.not_mem_nil, or_false] at h
  rcases h with rfl | rfl | rfl
  · exact ⟨.minus, rfl⟩
  · exact ⟨.plus, rfl⟩
  · exact ⟨.not, rfl⟩

/-- The operators of the table, with the two that may leave the right operand out, are those of the typed trees.
-/
theorem exists_binaryOp {op : String} (h : op ∈ ["&&", "||"] ∨ op ∈ operations.map Prod.fst) :
    ∃ o : BinaryOp, o.symbol = op := by
  let all : List BinaryOp := [.or, .and, .equal, .unequal, .identical, .distinct, .less, .greater, .atMost, .atLeast,
    .plus, .minus, .times, .divide, .modulo]
  have hall : ∀ op ∈ ["&&", "||"] ++ operations.map Prod.fst, op ∈ all.map BinaryOp.symbol := by decide
  obtain ⟨o, -, ho⟩ := List.mem_map.1 (hall op (List.mem_append.2 h))
  exact ⟨o, ho⟩

/-- A call of as many arguments as the tables say is one of a function. -/
theorem exists_call {name : String} {es : List Expr} {least : Nat} {most : Option Nat}
    (hname : lookup? name arities = some (least, most)) (hleast : least ≤ es.length)
    (hmost : ∀ n ∈ most, es.length ≤ n) : ∃ e : Expr, e.node = .call name (Expr.nodes es) := by
  obtain ⟨f, -, rfl⟩ := exists_function (by rw [hname]; rfl)
  have htakes : f.takes es.length = true := takes_iff.2 ⟨least, most, hname, hleast, hmost⟩
  rw [← f.isSome_call?] at htakes
  obtain ⟨e, he⟩ := Option.isSome_iff_exists.1 htakes
  exact ⟨e, Expr.node_of_call? he⟩

/-- If each of several nodes is the tree of a formula, they are the trees of formulas together. -/
theorem exists_nodes {ns : List Node} (h : ∀ n ∈ ns, ∃ e : Expr, e.node = n) : ∃ es, Expr.nodes es = ns := by
  induction ns with
  | nil => exact ⟨[], rfl⟩
  | cons n ns ih =>
    obtain ⟨e, rfl⟩ := h n List.mem_cons_self
    obtain ⟨es, rfl⟩ := ih fun n hn => h n (List.mem_cons_of_mem _ hn)
    exact ⟨e :: es, rfl⟩

theorem length_nodes (es : List Expr) : (Expr.nodes es).length = es.length := by
  induction es with
  | nil => rfl
  | cons e es ih => rw [Expr.nodes, List.length_cons, List.length_cons, ih]

/-- **The well-formed nodes are the trees of formulas.** So being well formed is all that the types add: each
node that has it can be given back its types. -/
theorem wellFormed_iff {n : Node} : n.WellFormed ↔ ∃ e : Expr, e.node = n := by
  constructor
  · intro h
    induction h with
    | number x => exact ⟨.number x, rfl⟩
    | unary hop he ih =>
      obtain ⟨o, rfl⟩ := exists_unaryOp hop
      obtain ⟨e, rfl⟩ := ih
      exact ⟨.unary o e, rfl⟩
    | binary hop hl hr ihl ihr =>
      obtain ⟨o, rfl⟩ := exists_binaryOp hop
      obtain ⟨l, rfl⟩ := ihl
      obtain ⟨r, rfl⟩ := ihr
      exact ⟨.binary o l r, rfl⟩
    | choice hc ht he ihc iht ihe =>
      obtain ⟨c, rfl⟩ := ihc
      obtain ⟨t, rfl⟩ := iht
      obtain ⟨e, rfl⟩ := ihe
      exact ⟨.choice c t e, rfl⟩
    | call hname hleast hmost hall ih =>
      obtain ⟨es, rfl⟩ := exists_nodes ih
      rw [length_nodes] at hleast hmost
      exact exists_call hname hleast hmost
  · rintro ⟨e, rfl⟩
    exact e.wellFormed_node

/-- **A well-formed node is run to a number**, whatever infinities and `nan` come up on the way. -/
theorem WellFormed.exists_run {n : Node} (h : n.WellFormed) : ∃ x, n.run = .ok x := by
  obtain ⟨e, rfl⟩ := wellFormed_iff.1 h
  exact ⟨e.value, e.run_node⟩

end Node

end Formula
end Tariff
