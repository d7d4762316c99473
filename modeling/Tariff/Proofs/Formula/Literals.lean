/-
# Literals of finite numbers

The literal of a finite number is one number lexeme, with a minus sign in front of it if the number is
negative. It is positional notation of the very decimal that the text of the number writes, whatever the
exponent of that text, and as a formula it is the number again, zeros with their signs.

| number | text | literal | tokens |
| --- | --- | --- | --- |
| `5` | `5.0` | `5.0` | `5.0` |
| `-0.00001` | `-1e-05` | `-0.00001` | `-`, `0.00001` |
| `-0` | `-0.0` | `-0.0` | `-`, `0.0` |
| `10 ^ 22` | `1e+22` | `10000000000000000000000` | `10000000000000000000000` |
-/

import Tariff.Formula
import Tariff.Proofs.Formula.Filling
import Tariff.Proofs.Number.Text

namespace Tariff

attribute [local instance (high)] instPowNat

namespace Decimal

/-- The number that a decimal is, exactly. -/
def amount (d : Decimal) : Rat := (if d.negative then -1 else 1) * (d.digits * 10 ^ d.exponent)

/-- A power of ten in the digits instead of the exponent makes no other number. -/
theorem amount_widen (d : Decimal) (k : Nat) : (d.widen k).amount = d.amount := by
  have hten : (10 : Rat) ≠ 0 := by decide
  have hpow : ((10 ^ k : Nat) : Rat) * 10 ^ (d.exponent - k) = 10 ^ d.exponent := by
    rw [Rat.natCast_pow, ← Rat.zpow_natCast, show ((10 : Nat) : Rat) = 10 from rfl, ← Rat.zpow_add hten]
    congr 1
    omega
  have hdigits : ((d.digits * 10 ^ k : Nat) : Rat) * 10 ^ (d.exponent - k) = d.digits * 10 ^ d.exponent := by
    rw [Rat.natCast_mul, Rat.mul_assoc, hpow]
  exact congrArg ((if d.negative then -1 else 1) * ·) hdigits

end Decimal

namespace Formula

open Decimal (signText)

/-! ### The tokens of a literal -/

/-- Positional notation is a single number. -/
theorem tokensFrom_positional {cs : List Char} (h : Numeral.Positional cs) (position : Nat) :
    tokensFrom position cs = .ok [⟨.number cs, position⟩] := by
  have hl : lexemeAt? ((Lexeme.number cs).chars ++ []) = some (.number cs) := lexemeAt?_number h (by simp)
  have htokens := tokensFrom_lexeme hl position
  rw [List.append_nil] at htokens
  rw [show cs = (Lexeme.number cs).chars from rfl, htokens, tokensFrom]
  rfl

/-- In positional notation every character is admissible. -/
theorem firstForeign?_positional {cs : List Char} (h : Numeral.Positional cs) (before : Option Char)
    (position : Nat) : firstForeign? before 0 position cs = none := by
  have happend := firstForeign?_append (isFormulaChar_of_positional h) before position []
  rw [List.append_nil] at happend
  rw [happend, firstForeign?]

/-- A number with its sign is one token, or two with a minus. -/
theorem tokens_signText (s : Bool) {cs : List Char} (h : Numeral.Positional cs) :
    tokens (signText s cs) =
      .ok (if s then [⟨.symbol .minus, 0⟩, ⟨.number cs, 1⟩] else [⟨.number cs, 0⟩]) := by
  cases s with
  | false =>
    simp only [signText, Bool.false_eq_true, if_false, tokens, firstForeign?_positional h,
      tokensFrom_positional h]
  | true =>
    have hminus : isFormulaChar '-' := by decide
    simp only [signText, if_true, tokens, firstForeign?_cons hminus, firstForeign?_positional h,
      tokensFrom_minus, tokensFrom_positional h, Nat.zero_add]
    rfl

/-! ### Its tree -/

/-- The tree of a literal: the sign is left to the operator. -/
def literalTree (s : Bool) (m : Magnitude) : Expr :=
  if s then .unary .minus (.number (.finite false m)) else .number (.finite false m)

/-- The tree of a literal has the value that was written, bit for bit; of zero with its sign too. -/
theorem value_literalTree (s : Bool) (m : Magnitude) : (literalTree s m).value = .finite s m := by
  cases s <;> rfl

/-- **The literal of a finite number is read** as that number, behind a minus sign if it has one. -/
theorem parse_literal (s : Bool) (m : Magnitude) :
    parse (Binary64.finite s m).literal = .ok (literalTree s m) := by
  have htree : ofTokens (if s then [⟨.symbol .minus, 0⟩, ⟨.number m.literal, 1⟩] else [⟨.number m.literal, 0⟩]) =
      .ok (if s then .unary .minus (.number (numberValue m.literal)) else .number (numberValue m.literal)) := by
    cases s <;> rfl
  rw [parse, Binary64.toList_literal_eq_signText, tokens_signText s m.literal_positional]
  refine htree.trans ?_
  rw [m.numberValue_literal, literalTree]

/-! ### Exactness -/

/-- **The literal and the text of a number write the same decimal**, the shortest one. They differ in layout
only: a literal has no exponent, so that the lexer can take it. -/
theorem written?_literal (s : Bool) (m : Magnitude) : ∃ d d' : Decimal,
    Numeral.written? (Binary64.finite s m).literal.toList = some d ∧
    Numeral.written? (Binary64.finite s m).text.toList = some d' ∧
    d.negative = s ∧ d'.negative = s ∧ d.amount = d'.amount := by
  obtain ⟨k, hk⟩ := m.literal_writes
  obtain ⟨k', hk'⟩ := m.marked_text
  refine ⟨(Binary64.shortest s m).widen k, (Binary64.shortest s m).widen k', ?_, ?_, rfl, rfl, ?_⟩
  · rw [Binary64.toList_literal_eq_signText, Numeral.written?_signText hk.decimal]
    rfl
  · rw [Binary64.toList_text, Numeral.written?_signText hk'.decimal?_eq]
    rfl
  · rw [Decimal.amount_widen, Decimal.amount_widen]

/-- **A literal is exact and is made of one number.** Behind the sign of a negative number it is digits
with at most one point, all of them admissible, and one token; it writes the decimal that the text of the
number writes; and as a formula it has the number as its value, a zero with its sign. -/
theorem literal_exact (s : Bool) (m : Magnitude) :
    (∃ digits, (Binary64.finite s m).literal.toList = signText s digits ∧ Numeral.Positional digits ∧
      firstForeign? none 0 0 digits = none ∧ tokensFrom 0 digits = .ok [⟨.number digits, 0⟩]) ∧
    (∃ d d' : Decimal,
      Numeral.written? (Binary64.finite s m).literal.toList = some d ∧
      Numeral.written? (Binary64.finite s m).text.toList = some d' ∧
      d.negative = s ∧ d'.negative = s ∧ d.amount = d'.amount) ∧
    evaluate (Binary64.finite s m).literal = .ok (.finite s m) := by
  have hdigits := m.literal_positional
  refine ⟨⟨m.literal, Binary64.toList_literal_eq_signText s m, hdigits,
    firstForeign?_positional hdigits none 0, tokensFrom_positional hdigits 0⟩, written?_literal s m, ?_⟩
  simp only [evaluate, parse_literal, Expr.price, value_literalTree]
  rfl

end Formula
end Tariff
