/-
# Tokens of a formula

A text is checked in two steps. First every character must be admissible: a digit, white space, one
of the characters of `symbolChars`, or part of a function name that stands as a whole word, with or
without `Math.` in front. Then the text is cut into lexemes, each the longest at its place:

| lexeme | form |
| --- | --- |
| number | digits, `digits.`, `digits.digits` or `.digits` |
| name | letters and underscores, perhaps behind `Math.` |
| symbol | one of `Symbol.all`, the longest that fits |

A token is a lexeme with the position of its first character.
-/

import Tariff.Formula.Expr
import Tariff.Number.Numeral
import Tariff.Text.Blank
import Tariff.Text.Word

namespace Tariff
namespace Formula

inductive Symbol where
  | identical | distinct | equal | unequal | atLeast | atMost | and | or
  | minus | plus | times | divide | modulo | less | greater | not
  | question | colon | comma | openRound | closeRound | openSquare | closeSquare
  deriving DecidableEq, Repr

namespace Symbol

/-- Longer symbols before their beginnings. -/
def all : List Symbol :=
  [identical, distinct, equal, unequal, atLeast, atMost, and, or, minus, plus, times, divide, modulo,
    less, greater, not, question, colon, comma, openRound, closeRound, openSquare, closeSquare]

def chars : Symbol → List Char
  | identical => ['=', '=', '=']
  | distinct => ['!', '=', '=']
  | equal => ['=', '=']
  | unequal => ['!', '=']
  | atLeast => ['>', '=']
  | atMost => ['<', '=']
  | and => ['&', '&']
  | or => ['|', '|']
  | minus => ['-']
  | plus => ['+']
  | times => ['*']
  | divide => ['/']
  | modulo => ['%']
  | less => ['<']
  | greater => ['>']
  | not => ['!']
  | question => ['?']
  | colon => [':']
  | comma => [',']
  | openRound => ['(']
  | closeRound => [')']
  | openSquare => ['[']
  | closeSquare => [']']

/-- No symbol is empty; so a symbol at the front of a text always takes something away from it. -/
theorem chars_ne_nil (s : Symbol) : s.chars ≠ [] := by cases s <;> simp [chars]

def unary? : Symbol → Option UnaryOp
  | minus => some .minus
  | plus => some .plus
  | not => some .not
  | _ => none

def binary? : Symbol → Option BinaryOp
  | or => some .or
  | and => some .and
  | equal => some .equal
  | unequal => some .unequal
  | identical => some .identical
  | distinct => some .distinct
  | less => some .less
  | greater => some .greater
  | atMost => some .atMost
  | atLeast => some .atLeast
  | plus => some .plus
  | minus => some .minus
  | times => some .times
  | divide => some .divide
  | modulo => some .modulo
  | _ => none

end Symbol

inductive Lexeme where
  | number (text : List Char)
  | name (text : List Char)
  | symbol (s : Symbol)
  deriving DecidableEq, Repr

def Lexeme.chars : Lexeme → List Char
  | number text => text
  | name text => text
  | symbol s => s.chars

structure Token where
  lexeme : Lexeme
  position : Nat
  deriving DecidableEq, Repr

def Token.text (t : Token) : String := String.ofList t.lexeme.chars

/-! ### Admissible characters -/

/-- Characters of operators, numbers and brackets. -/
def symbolChars : List Char :=
  ['+', '-', '*', '/', '.', '(', ')', '[', ']', '?', ':', '>', '<', '=', '&', '|', '!', '%', ',']

def isFormulaChar (c : Char) : Bool := c.isDigit || symbolChars.contains c || isBlank c

/-- A word may begin or end between these two characters, of which either may be missing. -/
def isWordEdge (before after : Option Char) : Bool :=
  (before.map isWordChar).getD false != (after.map isWordChar).getD false

/-- The length of a function name that makes up the next whole word, with its `Math.`. The first
argument is the character before. -/
def nameLength? (before : Option Char) (cs : List Char) : Option Nat :=
  if isWordEdge before cs.head? then
    let names := Function.all.map fun f => f.name.toList
    let spelled := names.map ("Math.".toList ++ ·) ++ names
    let fits := fun (name : List Char) =>
      name.isPrefixOf cs && isWordEdge name.getLast? (cs.drop name.length).head?
    (spelled.find? fits).map List.length
  else none

/-- The first character that is not admissible, with its position. `skip` counts the characters that
still belong to a function name. -/
def firstForeign? (before : Option Char) (skip position : Nat) : List Char → Option (Char × Nat)
  | [] => none
  | c :: rest =>
    match skip with
    | n + 1 => firstForeign? (some c) n (position + 1) rest
    | 0 =>
      match nameLength? before (c :: rest) with
      | some n => firstForeign? (some c) (n - 1) (position + 1) rest
      | none =>
        if isFormulaChar c then firstForeign? (some c) 0 (position + 1) rest else some (c, position)

/-! ### Lexemes -/

def isNameChar (c : Char) : Bool := c.isAlpha || c = '_'

/-- Digits, with a point and further digits if there are any. -/
def numberAt? (cs : List Char) : Option (List Char) :=
  let whole := cs.takeWhile Char.isDigit
  match whole, cs.dropWhile Char.isDigit with
  | [], '.' :: rest =>
    let places := rest.takeWhile Char.isDigit
    if places.isEmpty then none else some ('.' :: places)
  | [], _ => none
  | whole, '.' :: rest => some (whole ++ '.' :: rest.takeWhile Char.isDigit)
  | whole, _ => some whole

/-- Letters, perhaps behind `Math.`. -/
def nameAt? (cs : List Char) : Option (List Char) :=
  let qualifier := "Math.".toList
  let behind := (cs.drop qualifier.length).takeWhile isNameChar
  if qualifier.isPrefixOf cs && !behind.isEmpty then some (qualifier ++ behind)
  else
    let letters := cs.takeWhile isNameChar
    if letters.isEmpty then none else some letters

def symbolAt? (cs : List Char) : Option Symbol :=
  Symbol.all.find? fun s => s.chars.isPrefixOf cs

/-- The lexeme at the front. -/
def lexemeAt? (cs : List Char) : Option Lexeme :=
  match numberAt? cs with
  | some text => some (.number text)
  | none =>
    match nameAt? cs with
    | some text => some (.name text)
    | none => (symbolAt? cs).map .symbol

/-- A number at the front has at least a digit or a point. -/
theorem numberAt?_ne_nil {cs text : List Char} (h : numberAt? cs = some text) : text ≠ [] := by
  unfold numberAt? at h
  dsimp only at h
  split at h
  · split at h
    · simp at h
    · obtain rfl := Option.some.inj h
      simp
  · simp at h
  · obtain rfl := Option.some.inj h
    simp
  · rename_i hne _ _
    obtain rfl := Option.some.inj h
    intro hnil
    exact hne hnil

/-- A name at the front has at least one letter, behind a `Math.` too. -/
theorem nameAt?_ne_nil {cs text : List Char} (h : nameAt? cs = some text) : text ≠ [] := by
  unfold nameAt? at h
  dsimp only at h
  split at h
  · obtain rfl := Option.some.inj h
    simp
  · split at h
    · simp at h
    · rename_i hne
      obtain rfl := Option.some.inj h
      simpa using hne

/-- A lexeme takes at least one character, which is what cutting a text into tokens ends by. -/
theorem lexemeAt?_ne_nil {cs : List Char} {l : Lexeme} (h : lexemeAt? cs = some l) :
    l.chars ≠ [] := by
  unfold lexemeAt? at h
  split at h
  · rename_i text hn
    obtain rfl := Option.some.inj h
    exact numberAt?_ne_nil hn
  · split at h
    · rename_i text hn
      obtain rfl := Option.some.inj h
      exact nameAt?_ne_nil hn
    · obtain ⟨s, -, rfl⟩ := Option.map_eq_some_iff.1 h
      exact s.chars_ne_nil

/-- All tokens of a text that begins at a position, or the first character where no lexeme fits. -/
def tokensFrom (position : Nat) (cs : List Char) : Except (Char × Nat) (List Token) :=
  match cs with
  | [] => .ok []
  | c :: rest =>
    if isBlank c then tokensFrom (position + 1) rest
    else
      match h : lexemeAt? (c :: rest) with
      | none => .error (c, position)
      | some lexeme =>
        have : 0 < lexeme.chars.length := List.length_pos_iff.2 (lexemeAt?_ne_nil h)
        (tokensFrom (position + lexeme.chars.length) ((c :: rest).drop lexeme.chars.length)).map
          (⟨lexeme, position⟩ :: ·)
termination_by cs.length
decreasing_by
  · simp
  · simp only [List.length_drop, List.length_cons]
    omega

end Formula
end Tariff
