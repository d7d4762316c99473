/-
# White space

The characters that count as white space everywhere: trimmed from the ends of text, skipped between
the tokens of a formula. They are the Unicode characters of bidirectional type `WS`, `B` or `S` and
those of category `Zs`; the zero-width space `U+200B` and the byte order mark are not among them.
-/

import Tariff.Text.CharRanges

namespace Tariff

/-- White space. -/
def blankRanges : CharRanges := [
  (9, 13), (28, 32), (133, 133), (160, 160), (5760, 5760), (8192, 8202), (8232, 8233),
  (8239, 8239), (8287, 8287), (12288, 12288)]

def isBlank (c : Char) : Bool := blankRanges.has c

/-- Without white space at the front. -/
def trimFront (cs : List Char) : List Char := cs.dropWhile isBlank

/-- Without white space at either end. -/
def trimChars (cs : List Char) : List Char := (trimFront (trimFront cs).reverse).reverse

/-- Without white space at either end. -/
def trim (s : String) : String := String.ofList (trimChars s.toList)

example : isBlank '\u2003' ∧ isBlank '\x1c' ∧ ¬ isBlank '\u200b' ∧ ¬ isBlank '\ufeff' := by decide

end Tariff
