/-
# Reading JSON

A text is cut into tokens, and the tokens are folded into a value with a stack of the containers that
are still open. Beyond the standard, `NaN`, `Infinity` and `-Infinity` are numbers. Inside a string
control characters must be escaped; a pair of escaped surrogates is one character, and a surrogate
that stands alone is read as `U+FFFD`.
-/

import Tariff.Json
import Tariff.Number.Numeral

namespace Tariff
namespace Json

inductive Token where
  | openList | closeList | openObject | closeObject | comma | colon
  | text (s : String)
  | scalar (v : Json)

namespace Token

def hexValue? (c : Char) : Option Nat :=
  if c.isDigit then some (c.toNat - 48)
  else if 'a' ≤ c && c ≤ 'f' then some (c.toNat - 87)
  else if 'A' ≤ c && c ≤ 'F' then some (c.toNat - 55)
  else none

/-- The number that four hexadecimal digits write. -/
def unit? (a b c d : Char) : Option Nat := do
  return (((← hexValue? a) * 16 + (← hexValue? b)) * 16 + (← hexValue? c)) * 16 + (← hexValue? d)

def replacement : Char := '\ufffd'

/-- The character of a 16-bit unit. -/
def unitChar (n : Nat) : Char := if 0xD800 ≤ n ∧ n ≤ 0xDFFF then replacement else Char.ofNat n

/-- The character that a backslash and this one write. -/
def shortEscape? : Char → Option Char
  | '"' => some '"'
  | '\\' => some '\\'
  | '/' => some '/'
  | 'b' => some '\x08'
  | 'f' => some '\x0c'
  | 'n' => some '\n'
  | 'r' => some '\r'
  | 't' => some '\t'
  | _ => none

/-- The characters up to the closing quote and the rest behind it. The last argument but one is a
high surrogate that waits for its partner. -/
def string? (acc : List Char) (high : Option Nat) : List Char → Option (String × List Char)
  | [] => none
  | '"' :: rest => some (String.ofList (flush acc high).reverse, rest)
  | '\\' :: 'u' :: a :: b :: c :: d :: rest =>
    match unit? a b c d, high with
    | none, _ => none
    | some n, some h =>
      if 0xDC00 ≤ n ∧ n ≤ 0xDFFF then
        string? (Char.ofNat (0x10000 + (h - 0xD800) * 1024 + (n - 0xDC00)) :: acc) none rest
      else if 0xD800 ≤ n ∧ n ≤ 0xDBFF then string? (replacement :: acc) (some n) rest
      else string? (unitChar n :: replacement :: acc) none rest
    | some n, none =>
      if 0xD800 ≤ n ∧ n ≤ 0xDBFF then string? acc (some n) rest
      else string? (unitChar n :: acc) none rest
  | '\\' :: c :: rest =>
    match shortEscape? c with
    | some e => string? (e :: flush acc high) none rest
    | none => none
  | c :: rest => if c.toNat < 32 then none else string? (c :: flush acc high) none rest
where
  flush (acc : List Char) : Option Nat → List Char
    | some _ => replacement :: acc
    | none => acc

/-- A number at the front. -/
def number? (cs : List Char) : Option (Json × List Char) :=
  let (negative, cs) := match cs with
    | '-' :: r => (true, r)
    | r => (false, r)
  let whole := match cs with
    | '0' :: _ => ['0']
    | r => r.takeWhile Char.isDigit
  let rest := cs.drop whole.length
  if whole.isEmpty then none
  else
    let (places, rest) := match rest with
      | '.' :: r =>
        let ds := r.takeWhile Char.isDigit
        if ds.isEmpty then ([], rest) else (ds, r.dropWhile Char.isDigit)
      | r => ([], r)
    let (exponent, rest) := match rest with
      | c :: r =>
        if c = 'e' || c = 'E' then
          let (minus, r) := Numeral.signed r
          let ds := r.takeWhile Char.isDigit
          if ds.isEmpty then (none, rest)
          else
            let size : Int := Numeral.digitsValue ds
            (some (if minus then -size else size), r.dropWhile Char.isDigit)
        else (none, rest)
      | [] => (none, rest)
    if places.isEmpty && exponent.isNone then
      if whole.length ≤ Numeral.longest then
        let n : Int := Numeral.digitsValue whole
        some (.int (if negative then -n else n), rest)
      else none
    else
      let d : Decimal :=
        ⟨negative, Numeral.digitsValue (whole ++ places), exponent.getD 0 - places.length⟩
      some (.real d.toBinary64, rest)

/-- A name at the front. -/
def word? (cs : List Char) : Option (Json × List Char) :=
  let names : List (String × Json) :=
    [("null", .null), ("true", .bool true), ("false", .bool false), ("NaN", .real .nan),
      ("Infinity", .real (.infinite false)), ("-Infinity", .real (.infinite true))]
  names.findSome? fun (name, v) =>
    if name.toList.isPrefixOf cs then some (v, cs.drop name.length) else none

def isSpace (c : Char) : Bool := c = ' ' || c = '\t' || c = '\n' || c = '\r'

/-- The token at the front, behind white space. -/
def scan? (cs : List Char) : Option (Token × List Char) :=
  match cs with
  | '[' :: r => some (openList, r)
  | ']' :: r => some (closeList, r)
  | '\x7b' :: r => some (openObject, r)
  | '\x7d' :: r => some (closeObject, r)
  | ',' :: r => some (comma, r)
  | ':' :: r => some (colon, r)
  | '"' :: r => (string? [] none r).map fun (s, r) => (text s, r)
  | cs => ((word? cs).orElse fun _ => number? cs).map fun (v, r) => (scalar v, r)

/-- All tokens of a text, behind those already found, the last first. -/
def tokens? (acc : List Token) (cs : List Char) : Option (List Token) :=
  let cs' := cs.dropWhile isSpace
  if cs'.isEmpty then some acc.reverse
  else match scan? cs' with
    | some (t, rest) => if _h : rest.length < cs.length then tokens? (t :: acc) rest else none
    | none => none
termination_by cs.length

end Token

/-- A container that is still open, with its elements so far, the last first. -/
inductive Frame where
  | list (items : List Json)
  | object (fields : List (String × Json)) (key : String)

/-- What may come next. -/
inductive Expect where
  | value
  /-- A value or the end of an empty list. -/
  | valueOrEnd
  /-- A key or the end of an empty object. -/
  | keyOrEnd (fields : List (String × Json))
  | key (fields : List (String × Json))
  | colon (fields : List (String × Json)) (key : String)
  /-- A value is complete. -/
  | done (v : Json)

open Token in
/-- Fold tokens into a value. -/
def build? : List Frame → Expect → List Token → Option Json
  | [], .done v, [] => some v
  | .list xs :: fs, .done v, comma :: ts => build? (.list (v :: xs) :: fs) .value ts
  | .list xs :: fs, .done v, closeList :: ts => build? fs (.done (.list (v :: xs).reverse)) ts
  | .object ps k :: fs, .done v, comma :: ts => build? fs (.key (assign k v ps)) ts
  | .object ps k :: fs, .done v, closeObject :: ts => build? fs (.done (.object (assign k v ps))) ts
  | fs, .keyOrEnd _, closeObject :: ts => build? fs (.done (.object [])) ts
  | fs, .keyOrEnd ps, Token.text s :: ts => build? fs (.colon ps s) ts
  | fs, .key ps, Token.text s :: ts => build? fs (.colon ps s) ts
  | fs, .colon ps s, colon :: ts => build? (.object ps s :: fs) .value ts
  | .list _ :: fs, .valueOrEnd, closeList :: ts => build? fs (.done (.list [])) ts
  | fs, e, t :: ts =>
    let takesValue := match e with
      | .value => true
      | .valueOrEnd => true
      | _ => false
    if takesValue then
      match t with
      | scalar v => build? fs (.done v) ts
      | Token.text s => build? fs (.done (.text s)) ts
      | openList => build? (.list [] :: fs) .valueOrEnd ts
      | openObject => build? fs (.keyOrEnd []) ts
      | _ => none
    else none
  | _, _, [] => none

/-- The value that a text writes. -/
def parse? (s : String) : Option Json :=
  (Token.tokens? [] s.toList).bind (build? [] .value)

end Json
end Tariff
