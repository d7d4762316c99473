/-
# Answers

A quote is priced from a set of answers, which is any JSON value. A *path* such as `items.0.qty`
names a part of it: each key goes into an object by name or into a list by position.

| at | key | result |
| --- | --- | --- |
| object | present | its value |
| list | decimal digits below the length | the element there |
| list | digit characters that write no number, such as `²` | `Halt.badIndex` |
| anything else | | nothing |

Where a number is wanted every value gives one (`Json.number`), zero if it holds none.
-/

import Tariff.Json
import Tariff.Number.Numeral
import Tariff.Text.Lower

namespace Tariff

/-- What stops a whole calculation, as opposed to one rule. -/
inductive Halt where
  /-- A key made of digit characters is no position. -/
  | badIndex (key : String)
  /-- An amount cannot be rounded to cents: it is infinite or has too many digits. -/
  | unroundable (x : Binary64)
  deriving DecidableEq

/-- Cut at every occurrence of a character; there is one part more than occurrences. -/
def splitAtChar (sep : Char) : List Char → List (List Char)
  | [] => [[]]
  | c :: rest =>
    if c = sep then [] :: splitAtChar sep rest
    else match splitAtChar sep rest with
      | part :: parts => (c :: part) :: parts
      | [] => [[c]]

/-- Whether one list of characters stands somewhere inside another. -/
def isInside (needle : List Char) : List Char → Bool
  | [] => needle.isEmpty
  | c :: rest => needle.isPrefixOf (c :: rest) || isInside needle rest

/-- The keys of a path. -/
def pathKeys (path : String) : List String :=
  (splitAtChar '.' path.toList).map String.ofList

namespace Json

/-- The part of a value under one key. -/
def child (key : String) : Json → Except Halt (Option Json)
  | object fields => .ok (lookup? key fields)
  | list items =>
    if key.toList ≠ [] ∧ key.toList.all isDigitChar then
      match Numeral.int? key with
      | some i => .ok items[i.toNat]?
      | none => .error (.badIndex key)
    else .ok none
  | _ => .ok none

/-- The part of a value under several keys, one after the other. -/
def walk : List String → Json → Except Halt (Option Json)
  | [], v => .ok (some v)
  | key :: rest, v => do
    match ← v.child key with
    | some v => walk rest v
    | none => return none

/-- The part of a value that a path names. -/
def atPath (path : String) (v : Json) : Except Halt (Option Json) := v.walk (pathKeys path)

/-- A number, if it is finite, and zero otherwise. -/
def finiteOrZero (x : Binary64) : Binary64 := if x.isFinite then x else .zero

/-- The number that a text answer gives. -/
def textNumber (s : String) : Binary64 :=
  let t := trim s
  if t.isEmpty || t.toList.contains '_' then .zero
  else finiteOrZero ((Binary64.parse? t).getD .zero)

/-- The number that an answer gives: booleans count one and zero, a list of one element gives that
element's number, and what holds no finite number gives zero. -/
def number : Json → Binary64
  | null => .zero
  | bool b => if b then .one else .zero
  | int n => finiteOrZero (.ofInt n)
  | real x => finiteOrZero x
  | text s => textNumber s
  | list [v] => v.number
  | list _ => .zero
  | object _ => .zero

/-- Null, empty text and empty lists are no answer. -/
def isUnanswered : Json → Bool
  | null => true
  | text s => s.isEmpty
  | list items => items.isEmpty
  | _ => false

/-- The text that an answer is compared by. -/
def wording : Json → String
  | bool b => if b then "true" else "false"
  | v => v.display

/-- Whatever stood in an answer, a finite number comes out, so that no infinity and no `nan` gets into a formula
through a placeholder. -/
theorem isFinite_finiteOrZero (x : Binary64) : (finiteOrZero x).isFinite := by
  unfold finiteOrZero
  split
  · assumption
  · rfl

end Json
end Tariff
