/-
# Pricing formulas

`Formula.evaluate` reads a text in which no placeholder is left and gives its number, which has to be
finite. It fails in two ways only: the text is no formula, or its number is infinite or `nan`.
-/

import Tariff.Formula.Parser
import Tariff.Formula.Template

namespace Tariff
namespace Formula

/-- Why a text has no price. -/
inductive Failure where
  | invalid (fault : Fault)
  | notFinite (x : Binary64)
  deriving DecidableEq

namespace Failure

def message (source : String) : Failure → String
  | invalid fault => fault.message source
  | notFinite x => "Expression did not evaluate to a valid number: " ++ x.text

def position? (source : String) : Failure → Option Nat
  | invalid fault => fault.position? source
  | notFinite _ => none

/-- The word for the way of failing. -/
def kind : Failure → String
  | invalid _ => "InvalidExpression"
  | notFinite _ => "EvaluationError"

end Failure

/-- The value of a tree, if it is finite. -/
def Expr.price (e : Expr) : Except Failure Binary64 :=
  if e.value.isFinite then .ok e.value else .error (.notFinite e.value)

/-- The number of a formula. -/
def evaluate (source : String) : Except Failure Binary64 :=
  match parse source with
  | .ok e => e.price
  | .error fault => .error (.invalid fault)

/-- **A formula's number is finite.** -/
theorem isFinite_of_evaluate {source : String} {x : Binary64} (h : evaluate source = .ok x) :
    x.isFinite := by
  unfold evaluate at h
  split at h
  · unfold Expr.price at h
    split at h
    · rename_i hf
      obtain rfl := Except.ok.inj h
      exact hf
    · simp at h
  · simp at h

end Formula
end Tariff
