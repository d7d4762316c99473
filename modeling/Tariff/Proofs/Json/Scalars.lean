/-
# Scalars of canonical text

Null, truth values and numbers are written in letters, digits, points and signs, without quotes and brackets. Their
texts are told apart by what a numeral reads (`Json.scalar?`): digits alone are a whole number, a numeral with a
point or an exponent is a binary64, and what is no numeral is one of six names.

| text | scalar |
| --- | --- |
| `-12` | whole number |
| `-12.0`, `1e+16` | binary64 |
| `null`, `true`, `false`, `NaN`, `Infinity`, `-Infinity` | what the name says |
-/

import Tariff.Proofs.Json.Ordered
import Tariff.Proofs.Number.Text

namespace Tariff

open Decimal (signText)

namespace Json

def isScalarChar (c : Char) : Bool := c.isAlphanum || c = '.' || c = '+' || c = '-'

/-- The scalar that a text writes. -/
def scalar? (cs : List Char) : Option Json :=
  let (negative, body) := Numeral.signed cs
  match Numeral.decimal? false body with
  | some d =>
    if body.all Char.isDigit then some (.int (if negative then -d.digits else d.digits))
    else some (.real (if negative then -d.toBinary64 else d.toBinary64))
  | none =>
    if cs = "null".toList then some .null
    else if cs = "true".toList then some (.bool true)
    else if cs = "false".toList then some (.bool false)
    else if cs = "NaN".toList then some (.real .nan)
    else if cs = "Infinity".toList then some (.real (.infinite false))
    else if cs = "-Infinity".toList then some (.real (.infinite true))
    else none

/-- The text of a whole number is read as that number, not as a binary64: it has no point and no exponent. -/
theorem scalar?_int (z : Int) : scalar? (intText z).toList = some (.int z) := by
  have hread : Numeral.decimal? false (digitsOf z.natAbs) = some ⟨false, z.natAbs, 0⟩ :=
    (Numeral.writes_digitsOf _).decimal
  have hdigits : (digitsOf z.natAbs).all Char.isDigit := List.all_eq_true.2 (Numeral.isDigit_of_mem_digitsOf _)
  rw [toList_intText, scalar?, Numeral.signed_signText hread]
  simp only [hread, hdigits, if_true, Option.some.injEq, Json.int.injEq, decide_eq_true_eq]
  split <;> omega

/-- The text of a finite binary64 is read as that number, not as a whole one: it has a point or an exponent. -/
theorem scalar?_finite (s : Bool) (m : Magnitude) :
    scalar? (realText (.finite s m)).toList = some (.real (.finite s m)) := by
  obtain ⟨k, hd⟩ := m.marked_text
  have hback : ((Binary64.shortestMagnitude m).widen k).toBinary64 = .finite false m := by
    rw [Decimal.toBinary64_widen, Binary64.toBinary64_shortestMagnitude]
  have hmark : ¬ m.text.all Char.isDigit := by
    rw [Bool.not_eq_true, List.all_eq_false]
    exact hd.exists_not_isDigit
  rw [show realText (.finite s m) = (Binary64.finite s m).text from rfl, Binary64.toList_text, scalar?,
    Numeral.signed_signText hd.decimal?_eq]
  simp only [hd.decimal?_eq, hmark, hback]
  cases s <;> rfl

/-- **The text of a scalar is read as that scalar.** So two scalars with one text are the same, whole numbers
and binary64 being told apart by a point or an exponent. -/
theorem scalar?_canonical {v : Json} (h : v.isScalar) : scalar? v.canonical.toList = some v := by
  cases v with
  | null => rw [canonical]; rfl
  | bool b => rw [canonical]; cases b <;> rfl
  | int z => rw [canonical]; exact scalar?_int z
  | real x =>
    rw [canonical]
    cases x with
    | finite s m => exact scalar?_finite s m
    | infinite s => cases s <;> rfl
    | nan => rfl
  | text s => simp [isScalar] at h
  | list items => simp [isScalar] at h
  | object fields => simp [isScalar] at h

/-- A sign in front is a character of scalars too. -/
theorem isScalarChar_of_mem_signText {s : Bool} {cs : List Char} (h : ∀ c ∈ cs, isScalarChar c) :
    ∀ c ∈ signText s cs, isScalarChar c := by
  cases s with
  | false => exact h
  | true =>
    intro c hc
    rcases List.mem_cons.1 hc with rfl | hc
    · rfl
    · exact h c hc

theorem isScalarChar_of_isDigit {c : Char} (h : c.isDigit) : isScalarChar c := by
  simp [isScalarChar, Char.isAlphanum, h]

/-- The text of a scalar has no quotes, brackets and commas. -/
theorem isScalarChar_of_mem_canonical {v : Json} (h : v.isScalar) :
    ∀ c ∈ v.canonical.toList, isScalarChar c := by
  cases v with
  | null =>
    rw [canonical]
    exact List.all_eq_true.1 (by decide)
  | bool b =>
    rw [canonical]
    cases b <;> exact List.all_eq_true.1 (by decide)
  | int z =>
    rw [canonical, toList_intText]
    exact isScalarChar_of_mem_signText fun c hc =>
      isScalarChar_of_isDigit (Numeral.isDigit_of_mem_digitsOf _ c hc)
  | real x =>
    rw [canonical]
    cases x with
    | finite s m =>
      obtain ⟨k, hd⟩ := m.marked_text
      rw [realText, Binary64.toList_text]
      · refine isScalarChar_of_mem_signText fun c hc => ?_
        rcases hd.mem hc with hdigit | hmark
        · exact isScalarChar_of_isDigit hdigit
        · have hmarks : ['.', 'e', '+', '-'].all isScalarChar := by decide
          exact List.all_eq_true.1 hmarks c hmark
      · simp
      · simp
    | infinite s => cases s <;> exact List.all_eq_true.1 (by decide)
    | nan => exact List.all_eq_true.1 (by decide)
  | text s => simp [isScalar] at h
  | list items => simp [isScalar] at h
  | object fields => simp [isScalar] at h

end Json
end Tariff
