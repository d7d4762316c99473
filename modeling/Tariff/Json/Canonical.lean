/-
# Canonical JSON text

One text for each value: keys sorted by code point, `", "` and `": "` between the parts, ASCII only
(other characters as `\uXXXX` of their UTF-16 units), whole numbers in decimal and binary64 as the
shortest text that reads back, with `NaN`, `Infinity` and `-Infinity`.
-/

import Tariff.Json

namespace Tariff
namespace Json

/-- Put a field before the first one with a larger key. -/
def insertSorted {α : Type} (p : String × α) : List (String × α) → List (String × α)
  | [] => [p]
  | q :: rest => if p.1 < q.1 then p :: q :: rest else q :: insertSorted p rest

/-- Fields by ascending key, fields of one key in their order. -/
def sortFields {α : Type} (fields : List (String × α)) : List (String × α) :=
  fields.foldl (fun sorted p => insertSorted p sorted) []

def unitEscape (n : Nat) : List Char := '\\' :: 'u' :: hexDigits 4 n

def escapeAscii (c : Char) : List Char :=
  if c = '"' then ['\\', '"']
  else if c = '\\' then ['\\', '\\']
  else if c = '\n' then ['\\', 'n']
  else if c = '\r' then ['\\', 'r']
  else if c = '\t' then ['\\', 't']
  else if c = '\x08' then ['\\', 'b']
  else if c = '\x0c' then ['\\', 'f']
  else if 32 ≤ c.toNat ∧ c.toNat < 127 then [c]
  else if c.toNat < 65536 then unitEscape c.toNat
  else
    let n := c.toNat - 65536
    unitEscape (0xD800 + n / 1024) ++ unitEscape (0xDC00 + n % 1024)

def stringText (s : String) : String :=
  String.ofList ('"' :: s.toList.flatMap escapeAscii ++ ['"'])

/-- A binary64 as a JSON number. -/
def realText : Binary64 → String
  | .nan => "NaN"
  | .infinite negative => if negative then "-Infinity" else "Infinity"
  | x => x.text

mutual

def canonical : Json → String
  | null => "null"
  | bool b => if b then "true" else "false"
  | int n => intText n
  | real x => realText x
  | text s => stringText s
  | list items => "[" ++ ", ".intercalate (canonicalItems items) ++ "]"
  | object fields =>
    "\x7b" ++ ", ".intercalate ((sortFields (canonicalFields fields)).map Prod.snd) ++ "\x7d"

def canonicalItems : List Json → List String
  | [] => []
  | x :: rest => canonical x :: canonicalItems rest

/-- Each key with the text of its field. -/
def canonicalFields : List (String × Json) → List (String × String)
  | [] => []
  | (k, x) :: rest => (k, stringText k ++ ": " ++ canonical x) :: canonicalFields rest

end

end Json
end Tariff
