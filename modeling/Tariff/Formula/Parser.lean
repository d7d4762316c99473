/-
# Reading a formula

The grammar, from the loosest construct to the tightest:

| construct | form |
| --- | --- |
| `conditional` | `tier 0`, or `tier 0 ? conditional : conditional` |
| `tier k`, `k < 6` | `tier (k + 1)`, then any number of operators of level `k` with a `tier (k + 1)` each |
| `tier 6` = `unary` | `-`, `+` or `!` before a `unary`, or a `primary` |
| `primary` | a number, a `conditional` in `( )` or `[ ]`, a function name with arguments in `( )` |

A reader takes a construct from the front of the tokens and gives its tree and the rest. Whatever
goes one level deeper (a bracket, the arguments of a call, the operand of a unary operator, the
branches of a choice) uses the readers of `inside`, which are built for a number of levels and not at
all for none; so the limit on nesting is also what the recursion ends by.
-/

import Tariff.Formula.Fault

namespace Tariff
namespace Formula

/-- Takes a construct from the front of the tokens. -/
abbrev Reads (α : Type) := List Token → Except Fault (α × List Token)

/-- The readers one level further in. -/
structure Inner where
  conditional : Reads Expr
  unary : Reads Expr

/-- Go one level further in. -/
def enter : Option Inner → Except Fault Inner
  | some inner => .ok inner
  | none => .error .tooDeep

/-- The rest behind a symbol, if it comes next. -/
def accept? (s : Symbol) : List Token → Option (List Token)
  | t :: rest => if t.lexeme = .symbol s then some rest else none
  | [] => none

/-- The rest behind a symbol that has to come next. -/
def expect (s : Symbol) : List Token → Except Fault (List Token)
  | t :: rest => if t.lexeme = .symbol s then .ok rest else .error (.expected s t)
  | [] => .error .endsEarly

/-- The operator of a level that comes next, with the rest behind it. -/
def operator? (level : Nat) : List Token → Option (BinaryOp × List Token)
  | ⟨.symbol s, _⟩ :: rest =>
    match s.binary? with
    | some op => if op.level = level then some (op, rest) else none
    | none => none
  | _ => none

/-- At most `count` operators of a level with an operand each, applied from the left. -/
def chain (operand : Reads Expr) (level : Nat) : Nat → Expr → Reads Expr
  | 0, left, ts => .ok (left, ts)
  | count + 1, left, ts =>
    match operator? level ts with
    | some (op, rest) =>
      match operand rest with
      | .ok (right, rest) => chain operand level count (.binary op left right) rest
      | .error fault => .error fault
    | none => .ok (left, ts)

/-- Operands of one level; there are fewer operators than tokens. -/
def tier (level : Nat) (operand : Reads Expr) : Reads Expr := fun ts => do
  let (left, rest) ← operand ts
  chain operand level rest.length left rest

/-- Operands of all levels, the loosest outside. -/
def tiers (operand : Reads Expr) : Reads Expr :=
  [0, 1, 2, 3, 4, 5].foldr tier operand

/-- At most `count` further arguments, each behind a comma. -/
def moreArguments (argument : Reads Expr) : Nat → Reads (List Expr)
  | 0, ts => .ok ([], ts)
  | count + 1, ts =>
    match accept? .comma ts with
    | some rest => do
      let (e, rest) ← argument rest
      let (es, rest) ← moreArguments argument count rest
      return (e :: es, rest)
    | none => .ok ([], ts)

/-- Arguments up to the closing bracket. -/
def arguments (argument : Reads Expr) : Reads (List Expr) := fun ts =>
  match accept? .closeRound ts with
  | some rest => .ok ([], rest)
  | none => do
    let (e, rest) ← argument ts
    let (es, rest) ← moreArguments argument rest.length rest
    let rest ← expect .closeRound rest
    return (e :: es, rest)

/-- A call of the function that `name` names. -/
def call (inner : Option Inner) (name : Token) : Reads Expr := fun ts =>
  match Function.ofName? name.text with
  | none => .error (.unknownName name)
  | some f => do
    let rest ← expect .openRound ts
    let inside ← enter inner
    let (es, rest) ← arguments inside.conditional rest
    match f.call? es with
    | some e => return (e, rest)
    | none => .error (.argumentCount f es.length name)

/-- A formula up to its closing bracket. -/
def bracketed (inner : Option Inner) (closing : Symbol) : Reads Expr := fun ts => do
  let inside ← enter inner
  let (e, rest) ← inside.conditional ts
  let rest ← expect closing rest
  return (e, rest)

/-- The number that a number lexeme writes. -/
def numberValue (text : List Char) : Binary64 :=
  ((Numeral.decimal? false text).map Decimal.toBinary64).getD .nan

def primary (inner : Option Inner) : Reads Expr
  | [] => .error .endsEarly
  | t :: rest =>
    match t.lexeme with
    | .number text => .ok (.number (numberValue text), rest)
    | .name _ => call inner t rest
    | .symbol .openRound => bracketed inner .closeRound rest
    | .symbol .openSquare => bracketed inner .closeSquare rest
    | .symbol _ => .error (.unexpected t)

/-- The unary operator that comes next, with the rest behind it. -/
def unaryOperator? : List Token → Option (UnaryOp × List Token)
  | ⟨.symbol s, _⟩ :: rest => s.unary?.map (·, rest)
  | _ => none

def unary (inner : Option Inner) : Reads Expr := fun ts =>
  match unaryOperator? ts with
  | some (op, rest) => do
    let inside ← enter inner
    let (e, rest) ← inside.unary rest
    return (.unary op e, rest)
  | none => primary inner ts

def conditional (inner : Option Inner) : Reads Expr := fun ts => do
  let (condition, rest) ← tiers (unary inner) ts
  match accept? .question rest with
  | none => return (condition, rest)
  | some rest =>
    let inside ← enter inner
    let (consequent, rest) ← inside.conditional rest
    let rest ← expect .colon rest
    let (alternative, rest) ← inside.conditional rest
    return (.choice condition consequent alternative, rest)

/-- The readers for use inside a construct, when `room` levels may still be entered. -/
def inside : Nat → Option Inner
  | 0 => none
  | room + 1 => some ⟨conditional (inside room), unary (inside room)⟩

/-- The tree of all tokens. -/
def ofTokens (ts : List Token) : Except Fault Expr :=
  if tokenLimit < ts.length then .error .tooLong
  else if ts.isEmpty then .error .empty
  else
    match conditional (inside nestingLimit) ts with
    | .error fault => .error fault
    | .ok (e, []) => .ok e
    | .ok (_, t :: _) => .error (.unexpected t)

/-- The tokens of a text with admissible characters only. -/
def tokens (cs : List Char) : Except Fault (List Token) :=
  match firstForeign? none 0 0 cs with
  | some (c, position) => .error (.foreignChar c position)
  | none =>
    match tokensFrom 0 cs with
    | .ok ts => .ok ts
    | .error (c, position) => .error (.strayChar c position)

/-- The tree of a formula. -/
def parse (source : String) : Except Fault Expr := do
  ofTokens (← tokens source.toList)

end Formula
end Tariff
