/-
# Formulas as trees

A formula is built from numbers by operators, a choice, and functions; its meaning is a binary64,
`Expr.value`. There are no errors inside: every operator and function is total, and a condition holds
for every number but the zeros and `nan`.

| level | operators | grouped |
| ---: | --- | --- |
| 0 | `||` | left |
| 1 | `&&` | left |
| 2 | `==` `!=` `===` `!==` | left |
| 3 | `<` `>` `<=` `>=` | left |
| 4 | `+` `-` | left |
| 5 | `*` `/` `%` | left |

`a && b` is `a` if `a` does not hold and `b` otherwise, and `a || b` the other way round, so both give
one of their operands. A comparison gives `1` or `0`.
-/

import Tariff.Number.Arithmetic

namespace Tariff
namespace Formula

inductive UnaryOp where
  | minus | plus | not
  deriving DecidableEq, Repr

inductive BinaryOp where
  | or | and
  | equal | unequal | identical | distinct
  | less | greater | atMost | atLeast
  | plus | minus
  | times | divide | modulo
  deriving DecidableEq, Repr

/-- Functions of any number of arguments from one on. -/
inductive Extreme where
  | max | min
  deriving DecidableEq, Repr

/-- Functions of one argument. -/
inductive Whole where
  | floor | ceil | round
  deriving DecidableEq, Repr

inductive Function where
  | extreme (f : Extreme)
  | whole (f : Whole)
  deriving DecidableEq, Repr

inductive Expr where
  | number (x : Binary64)
  | unary (op : UnaryOp) (operand : Expr)
  | binary (op : BinaryOp) (left right : Expr)
  | choice (condition consequent alternative : Expr)
  | extreme (f : Extreme) (first : Expr) (more : List Expr)
  | whole (f : Whole) (argument : Expr)
  deriving Inhabited

namespace BinaryOp

/-- The level of an operator; a higher one binds tighter. -/
def level : BinaryOp → Nat
  | or => 0
  | and => 1
  | equal | unequal | identical | distinct => 2
  | less | greater | atMost | atLeast => 3
  | plus | minus => 4
  | times | divide | modulo => 5

/-- There are six levels, which is what the readers of the tiers count up to. -/
theorem level_lt (op : BinaryOp) : op.level < 6 := by
  cases op <;> decide

def symbol : BinaryOp → String
  | or => "||"
  | and => "&&"
  | equal => "=="
  | unequal => "!="
  | identical => "==="
  | distinct => "!=="
  | less => "<"
  | greater => ">"
  | atMost => "<="
  | atLeast => ">="
  | plus => "+"
  | minus => "-"
  | times => "*"
  | divide => "/"
  | modulo => "%"

end BinaryOp

namespace UnaryOp

def symbol : UnaryOp → String
  | minus => "-"
  | plus => "+"
  | not => "!"

end UnaryOp

namespace Function

def all : List Function :=
  [.extreme .max, .extreme .min, .whole .floor, .whole .ceil, .whole .round]

def name : Function → String
  | extreme .max => "max"
  | extreme .min => "min"
  | whole .floor => "floor"
  | whole .ceil => "ceil"
  | whole .round => "round"

/-- The function of a name, with or without `Math.` in front. -/
def ofName? (name : String) : Option Function :=
  all.find? fun f => f.name = name || "Math." ++ f.name = name

/-- A call, if the function takes that many arguments. -/
def call? : Function → List Expr → Option Expr
  | extreme f, first :: more => some (.extreme f first more)
  | whole f, [argument] => some (.whole f argument)
  | _, _ => none

end Function

def ofBool (b : Bool) : Binary64 := if b then .one else .zero

namespace UnaryOp

def apply : UnaryOp → Binary64 → Binary64
  | minus, x => -x
  | plus, x => x
  | not, x => ofBool !x.isTrue

end UnaryOp

namespace BinaryOp

def apply (op : BinaryOp) (x y : Binary64) : Binary64 :=
  match op with
  | or => if x.isTrue then x else y
  | and => if x.isTrue then y else x
  | equal | identical => ofBool (x.eq y)
  | unequal | distinct => ofBool !x.eq y
  | less => ofBool (x.lt y)
  | greater => ofBool (y.lt x)
  | atMost => ofBool (x.le y)
  | atLeast => ofBool (y.le x)
  | plus => x + y
  | minus => x - y
  | times => x * y
  | divide => x / y
  | modulo => x % y

end BinaryOp

def Extreme.apply : Extreme → Binary64 → List Binary64 → Binary64
  | max => Binary64.maximum
  | min => Binary64.minimum

def Whole.apply : Whole → Binary64 → Binary64
  | floor => Binary64.floor
  | ceil => Binary64.ceil
  | round => Binary64.round

namespace Expr

mutual

/-- The number that a formula means. -/
def value : Expr → Binary64
  | number x => x
  | unary op e => op.apply e.value
  | binary op l r => op.apply l.value r.value
  | choice c t e => if c.value.isTrue then t.value else e.value
  | extreme f first more => f.apply first.value (values more)
  | whole f e => f.apply e.value

def values : List Expr → List Binary64
  | [] => []
  | e :: rest => e.value :: values rest

end

end Expr

end Formula
end Tariff
