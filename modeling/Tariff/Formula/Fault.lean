/-
# What can be wrong with a formula

A `Fault` says why a text is no formula. Each has one message, and most have a position, counted in
characters from the start of the text.
-/

import Tariff.Formula.Token
import Tariff.Text.Quoted

namespace Tariff
namespace Formula

/-- The levels that brackets, calls, unary operators and choices may be nested. -/
def nestingLimit : Nat := 50

/-- The tokens that a formula may have. -/
def tokenLimit : Nat := 500

inductive Fault where
  /-- There is no text. -/
  | missing
  /-- The text holds nothing but white space. -/
  | empty
  | foreignChar (c : Char) (position : Nat)
  | strayChar (c : Char) (position : Nat)
  | tooLong
  | tooDeep
  | endsEarly
  | unexpected (found : Token)
  | expected (wanted : Symbol) (found : Token)
  | unknownName (found : Token)
  | argumentCount (f : Function) (count : Nat) (name : Token)
  deriving DecidableEq, Repr

namespace Fault

/-- Where the fault lies in a text. -/
def position? (source : String) : Fault → Option Nat
  | missing | tooLong | tooDeep => none
  | empty => some 0
  | foreignChar _ p | strayChar _ p => some p
  | endsEarly => some source.length
  | unexpected t | expected _ t | unknownName t | argumentCount _ _ t => some t.position

/-- The message for a fault of a text. -/
def message (source : String) (fault : Fault) : String :=
  let at_ := fun (t : Token) (what : String) =>
    what ++ " at position " ++ natText t.position ++ " in expression: " ++ source
  match fault with
  | missing | empty => "Empty expression"
  | foreignChar c p =>
    "Invalid character " ++ quoted c.toString ++ " at position " ++ natText p ++ " in expression: "
      ++ source
  | strayChar c p => "Unexpected character " ++ quoted c.toString ++ " at position " ++ natText p
  | tooLong => "Expression longer than " ++ natText tokenLimit ++ " tokens"
  | tooDeep => "Expression nested deeper than " ++ natText nestingLimit ++ " levels"
  | endsEarly => "Unexpected end of expression"
  | unexpected t => at_ t ("Unexpected " ++ quoted t.text)
  | expected s t =>
    at_ t ("Expected " ++ quoted (String.ofList s.chars) ++ " but found " ++ quoted t.text)
  | unknownName t => at_ t ("Unknown identifier " ++ quoted t.text)
  | argumentCount f count t =>
    at_ t (f.name ++ "() called with " ++ natText count ++ " argument(s)")

end Fault
end Formula
end Tariff
