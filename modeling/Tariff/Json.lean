/-
# JSON values

Answers and everything else that arrives from outside. A number keeps its kind: a literal without
point and exponent is a whole number of any size, every other one a binary64. An object keeps the
order in which its keys first appeared; a key that appears again replaces the value in place.

Inside a message a value is *shown*: text quoted, words capitalised (`None`, `True`), containers in
brackets with a comma and a blank between the elements.
-/

import Tariff.Number.Written
import Tariff.Text.Quoted

namespace Tariff

inductive Json where
  | null
  | bool (b : Bool)
  | int (n : Int)
  | real (x : Binary64)
  | text (s : String)
  | list (items : List Json)
  | object (fields : List (String × Json))
  deriving Inhabited

/-- The value of the first entry with a key. -/
def lookup? {α : Type} (key : String) : List (String × α) → Option α
  | [] => none
  | (k, v) :: rest => if k = key then some v else lookup? key rest

/-- Replace the value of a key in place, or append the key. -/
def assign {α : Type} (key : String) (value : α) : List (String × α) → List (String × α)
  | [] => [(key, value)]
  | (k, v) :: rest => if k = key then (k, value) :: rest else (k, v) :: assign key value rest

/-- A value that was assigned is found under its key, whether the key was there before or not. -/
theorem lookup?_assign_self {α : Type} (key : String) (value : α) (fields : List (String × α)) :
    lookup? key (assign key value fields) = some value := by
  induction fields with
  | nil => simp [assign, lookup?]
  | cons p rest ih =>
    obtain ⟨k, v⟩ := p
    by_cases h : k = key
    · simp [assign, lookup?, h]
    · simp [assign, lookup?, h, ih]

/-- Assigning to one key leaves what is found under any other as it was. -/
theorem lookup?_assign_of_ne {α : Type} {key other : String} (h : key ≠ other) (value : α)
    (fields : List (String × α)) :
    lookup? other (assign key value fields) = lookup? other fields := by
  induction fields with
  | nil => simp [assign, lookup?, h]
  | cons p rest ih =>
    obtain ⟨k, v⟩ := p
    by_cases hk : k = key
    · subst hk
      simp [assign, lookup?, h]
    · simp [assign, lookup?, hk, ih]

namespace Json

/-- The value under a key of an object. -/
def get? (key : String) : Json → Option Json
  | object fields => lookup? key fields
  | _ => none

mutual

/-- A value as shown inside a message. -/
def shown : Json → String
  | null => "None"
  | bool b => if b then "True" else "False"
  | int n => intText n
  | real x => x.text
  | text s => quoted s
  | list items => "[" ++ ", ".intercalate (shownItems items) ++ "]"
  | object fields => "\x7b" ++ ", ".intercalate (shownFields fields) ++ "\x7d"

def shownItems : List Json → List String
  | [] => []
  | x :: rest => shown x :: shownItems rest

def shownFields : List (String × Json) → List String
  | [] => []
  | (k, x) :: rest => (quoted k ++ ": " ++ shown x) :: shownFields rest

end

/-- A value as text of its own: text stands for itself, all else is shown. -/
def display : Json → String
  | text s => s
  | v => v.shown

/-- Nothing to see: null, false, zero, empty text and empty containers. -/
def isBlankValue : Json → Bool
  | null => true
  | bool b => !b
  | int n => n = 0
  | real x => x.isZero
  | text s => s.isEmpty
  | list items => items.isEmpty
  | object fields => fields.isEmpty

/-- The word for the kind of a value. -/
def kindName : Json → String
  | null => "NoneType"
  | bool _ => "bool"
  | int _ => "int"
  | real _ => "float"
  | text _ => "str"
  | list _ => "list"
  | object _ => "dict"

/-- A text or null. -/
def ofText? : Option String → Json
  | some s => text s
  | none => null

def ofTexts (xs : List String) : Json := list (xs.map text)

end Json
end Tariff
