/-
# Formulas with placeholders

A placeholder is a name in double braces, `\x7b\x7bname\x7d\x7d`: two opening braces, at least one
character other than a closing brace, and two closing ones. The name is what stands inside without
white space at the ends. A text is cut from the left into placeholders and single characters; filling
in replaces a placeholder by the literal of its value and leaves one without a value as it is, so that
its braces are refused as foreign characters.
-/

import Tariff.Json
import Tariff.Text.Blank

namespace Tariff
namespace Formula

/-- A part of a text: a character, or a placeholder with what stands inside its braces. -/
inductive Piece where
  | char (c : Char)
  | slot (inside : List Char)
  deriving DecidableEq, Repr

namespace Piece

/-- The name of a placeholder. -/
def name? : Piece → Option String
  | char _ => none
  | slot inside => some (String.ofList (trimChars inside))

/-- The text of a part. -/
def chars : Piece → List Char
  | char c => [c]
  | slot inside => '\x7b' :: '\x7b' :: inside ++ ['\x7d', '\x7d']

end Piece

/-- The placeholder at the front, with the rest behind it. -/
def slotAt? : List Char → Option (List Char × List Char)
  | '\x7b' :: '\x7b' :: body =>
    let inside := body.takeWhile (· ≠ '\x7d')
    match body.dropWhile (· ≠ '\x7d') with
    | '\x7d' :: '\x7d' :: rest => if inside.isEmpty then none else some (inside, rest)
    | _ => none
  | _ => none

/-- A placeholder and the rest behind it make up the text. -/
theorem slotAt?_append {cs inside rest : List Char} (h : slotAt? cs = some (inside, rest)) :
    cs = (Piece.slot inside).chars ++ rest := by
  unfold slotAt? at h
  split at h
  · rename_i body
    dsimp only at h
    split at h
    · rename_i rest' hd
      split at h
      · simp at h
      · obtain ⟨rfl, rfl⟩ := Prod.mk.inj (Option.some.inj h)
        simp only [Piece.chars, List.cons_append, List.append_assoc, List.cons.injEq, true_and]
        rw [List.nil_append, ← hd, List.takeWhile_append_dropWhile]
    · simp at h
  · simp at h

/-- A placeholder takes something away from the text, so cutting comes to an end. -/
theorem length_lt_of_slotAt? {cs inside rest : List Char} (h : slotAt? cs = some (inside, rest)) :
    rest.length < cs.length := by
  rw [slotAt?_append h]
  simp only [Piece.chars, List.length_append, List.length_cons, List.length_nil]
  omega

/-- The parts of a text, from the left. -/
def pieces (cs : List Char) : List Piece :=
  match cs with
  | [] => []
  | c :: rest =>
    match h : slotAt? (c :: rest) with
    | some (inside, after) =>
      have : after.length < (c :: rest).length := length_lt_of_slotAt? h
      .slot inside :: pieces after
    | none => .char c :: pieces rest
termination_by cs.length
decreasing_by
  · exact this
  · exact Nat.lt_succ_self rest.length

/-- The members of a list at their first places. -/
def firsts (xs : List String) : List String :=
  xs.foldl (fun seen x => if seen.contains x then seen else seen ++ [x]) []

/-- The names of the placeholders of a text, in the order of their first places. -/
def placeholders (source : String) : List String :=
  firsts ((pieces source.toList).filterMap Piece.name?)

/-- What a part becomes when values are filled in. -/
def Piece.fill (values : List (String × Binary64)) (piece : Piece) : List Char :=
  match piece.name? with
  | some name =>
    match lookup? name values with
    | some x => x.literal.toList
    | none => piece.chars
  | none => piece.chars

/-- A text with its placeholders replaced by their values. -/
def fill (values : List (String × Binary64)) (source : String) : String :=
  String.ofList ((pieces source.toList).flatMap (Piece.fill values))

end Formula
end Tariff
