/-
# Numbers are told apart by their text

The text of a finite number is positional notation with a point or with an exponent behind (`Numeral.Marked`), and
what it writes is the shortest decimal of the number (`Magnitude.marked_text`), so read back it is the number, zeros
with their signs. A whole number is written in digits alone, and the mark tells the two kinds apart
(`Marked.exists_not_isDigit`).

| number | text | mark |
| --- | --- | --- |
| whole number `5` | `5` | |
| binary64 `5` | `5.0` | point |
| binary64 `10 ^ 16` | `1e+16` | exponent |
-/

import Tariff.Proofs.Number.Literal

namespace Tariff

attribute [local instance (high)] instPowNat

/-- Writing a number puts as many characters in front as it has digits. -/
theorem length_digitsOnto (n : Nat) (acc : List Char) : (digitsOnto n acc).length = digitCount n + acc.length := by
  fun_induction digitsOnto n acc with
  | case1 n acc h =>
    rw [digitCount, if_pos h, List.length_cons]
    omega
  | case2 n acc h ih =>
    rw [ih, digitCount.eq_def n, if_neg h, List.length_cons]
    omega

theorem length_digitsOf (n : Nat) : (digitsOf n).length = digitCount n := length_digitsOnto n []

/-- With places behind the point there is a point. -/
theorem mem_pointed {digits : List Char} {places : Nat} (h : places ≠ 0) : '.' ∈ pointed digits places := by
  simp [pointed, h]

namespace Numeral

/-! ### Signs -/

/-- Positional notation does not begin with a sign, so a sign in front of it can be told from it. -/
theorem ne_sign_of_decimal? {cs : List Char} {d : Decimal} (h : decimal? false cs = some d) :
    ∀ c ∈ cs.head?, c ≠ '-' ∧ c ≠ '+' := by
  intro c hc
  obtain ⟨rest, rfl⟩ : ∃ rest, cs = c :: rest := by
    cases cs with
    | nil => simp at hc
    | cons a rest => exact ⟨rest, by rw [Option.mem_some.1 hc]⟩
  constructor <;> rintro rfl <;> simp [decimal?] at h

/-- A sign in front of what begins with none is read as such. -/
theorem signed_signText_of_head? {cs : List Char} (h : ∀ c ∈ cs.head?, c ≠ '-' ∧ c ≠ '+') (negative : Bool) :
    signed (Decimal.signText negative cs) = (negative, cs) := by
  cases negative with
  | true => rfl
  | false =>
    cases cs with
    | nil => rfl
    | cons c rest =>
      obtain ⟨hminus, hplus⟩ := h c rfl
      rw [Decimal.signText, if_neg (by simp), signed]
      · intro _ heq
        exact hminus (List.cons.inj heq).1
      · intro _ heq
        exact hplus (List.cons.inj heq).1

/-- The sign in front of a numeral is read as such. -/
theorem signed_signText {cs : List Char} {d : Decimal} (h : decimal? false cs = some d)
    (negative : Bool) : signed (Decimal.signText negative cs) = (negative, cs) :=
  signed_signText_of_head? (ne_sign_of_decimal? h) negative

/-- The sign is all that a sign changes in a decimal. -/
theorem decimal?_negative (negative : Bool) (cs : List Char) :
    decimal? negative cs = (decimal? false cs).map fun d => { d with negative } := by
  simp only [decimal?, apply_ite (Option.map _), Option.map_none, Option.map_map]
  rfl

/-- The decimal that a text writes, the sign included. -/
def written? (cs : List Char) : Option Decimal := decimal? (signed cs).1 (signed cs).2

/-- Notation with a sign in front is read as the decimal with that sign. -/
theorem written?_signText {cs : List Char} {d : Decimal} (h : decimal? false cs = some d) (negative : Bool) :
    written? (Decimal.signText negative cs) = some { d with negative } := by
  rw [written?, signed_signText h, decimal?_negative, h, Option.map_some]

/-! ### Exponents -/

/-- The exponent as it is written behind the mark. -/
def exponentTail (top : Int) : List Char :=
  (if top < 0 then '-' else '+') ::
    (List.replicate (2 - (digitsOf top.natAbs).length) '0' ++ digitsOf top.natAbs)

/-- The exponent that is written behind an `e` is read back, with its sign and its two digits at least. -/
theorem exponent?_exponentTail (top : Int) : exponent? ('e' :: exponentTail top) = some top := by
  generalize hdigits : List.replicate (2 - (digitsOf top.natAbs).length) '0' ++ digitsOf top.natAbs = digits
  have hne : digits ≠ [] := by
    rw [← hdigits]
    simp [digitsOf_ne_nil]
  have hall : digits.all Char.isDigit := by
    rw [← hdigits, List.all_eq_true]
    exact isDigit_of_mem_padded (isDigit_of_mem_digitsOf _) _
  have hvalue : digitsValue digits = top.natAbs := by
    rw [← hdigits, digitsValue_replicate_append, digitsValue_digitsOf]
  rw [exponentTail, hdigits]
  by_cases hneg : top < 0
  · simp only [exponent?, hneg, signed, hne, hall, hvalue, if_true, decide_true, Bool.true_or, ne_eq,
      not_false_eq_true, and_self, Option.some.injEq]
    omega
  · simp only [exponent?, hneg, signed, hne, hall, hvalue, if_true, if_false, decide_true, Bool.true_or, ne_eq,
      not_false_eq_true, and_self, Option.some.injEq, Bool.false_eq_true]
    omega

/-- Behind the `e` stand a sign and digits only. -/
theorem mem_exponentTail {top : Int} {c : Char} (h : c ∈ exponentTail top) :
    c.isDigit ∨ c = '+' ∨ c = '-' := by
  rcases List.mem_cons.1 h with rfl | h
  · split <;> simp
  · exact .inl (isDigit_of_mem_padded (isDigit_of_mem_digitsOf _) _ c h)

/-- The digits of a decimal with the point behind the first. -/
theorem writes_mantissa (n : Nat) :
    Writes (pointed (digitsOf n) ((digitsOf n).length - 1)) ⟨false, n, -((digitsOf n).length - 1 : Nat)⟩ := by
  by_cases hone : (digitsOf n).length - 1 = 0
  · rw [hone, pointed_zero (digitsOf_ne_nil n)]
    exact writes_digitsOf n
  · exact writes_pointed n _ (Nat.pos_of_ne_zero hone)

/-- An exponent behind positional notation. -/
theorem Writes.decimal?_exponent {cs : List Char} {d : Decimal} (h : Writes cs d) (top : Int) :
    decimal? false (cs ++ 'e' :: exponentTail top) = some ⟨false, d.digits, d.exponent + top⟩ := by
  obtain ⟨hpositional, hd⟩ := h
  have htail : ∀ c ∈ ('e' :: exponentTail top).head?, c.isDigit = false ∧ c ≠ '.' := by simp
  cases hpositional with
  | whole hne hdigits =>
    rw [decimal?_whole hne hdigits] at hd
    obtain rfl := Option.some.inj hd
    rw [decimal?_whole_append hne hdigits htail, exponent?_exponentTail]
    simp
  | point hne hdigits hplaces =>
    rw [decimal?_point hne hdigits hplaces] at hd
    obtain rfl := Option.some.inj hd
    rw [List.append_assoc, List.cons_append,
      decimal?_point_append hne hdigits hplaces (fun c hc => (htail c hc).1), exponent?_exponentTail]
    simp only [Option.map_some, Option.some.injEq, Decimal.mk.injEq, true_and]
    omega

/-- Positional notation of a decimal with a point in it or with an exponent behind. -/
inductive Marked : List Char → Decimal → Prop where
  | point {cs : List Char} {d : Decimal} (h : Writes cs d) (hpoint : '.' ∈ cs) : Marked cs d
  | exponent {cs : List Char} {d : Decimal} (h : Writes cs d) (top : Int) :
      Marked (cs ++ 'e' :: exponentTail top) ⟨false, d.digits, d.exponent + top⟩

namespace Marked

variable {cs : List Char} {d : Decimal}

/-- The digits in front of an exponent write the decimal they are marked with. -/
theorem decimal?_eq (h : Marked cs d) : decimal? false cs = some d := by
  cases h with
  | point h hpoint => exact h.decimal
  | exponent h top => exact h.decimal?_exponent top

/-- The characters of numbers. -/
theorem mem (h : Marked cs d) {c : Char} (hc : c ∈ cs) : c.isDigit ∨ c ∈ ['.', 'e', '+', '-'] := by
  cases h with
  | point h hpoint => exact (h.positional.mem hc).imp_right (by simp +contextual)
  | exponent h top =>
    rcases List.mem_append.1 hc with hc | hc
    · exact (h.positional.mem hc).imp_right (by simp +contextual)
    rcases List.mem_cons.1 hc with rfl | hc
    · exact .inr (by simp)
    · exact (mem_exponentTail hc).imp_right (by rintro (rfl | rfl) <;> simp)

/-- The mark is no digit. -/
theorem exists_not_isDigit (h : Marked cs d) : ∃ c ∈ cs, ¬ c.isDigit := by
  cases h with
  | point h hpoint => exact ⟨'.', hpoint, by decide⟩
  | exponent h top => exact ⟨'e', by simp, by decide⟩

end Marked
end Numeral

namespace Decimal

open Numeral

/-- Whatever the layout, the sign is put in front and has no part in the rest. -/
theorem lay_eq_signText (l : Layout) (s : Bool) (n : Nat) (e : Int) :
    lay l ⟨s, n, e⟩ = signText s (lay l ⟨false, n, e⟩) := by
  cases s with
  | false => rfl
  | true =>
    have hpositional : l.isPositional ⟨true, n, e⟩ = l.isPositional ⟨false, n, e⟩ := rfl
    simp only [lay, hpositional, plain, scientific, top, signText, if_true, Bool.false_eq_true, if_false]
    split <;> rfl

/-- In full, a decimal is written with a mark, and is what it reads as, trailing zeros aside. -/
theorem marked_lay (n : Nat) (e : Int) :
    ∃ k : Nat, Marked (lay .full ⟨false, n, e⟩) (widen ⟨false, n, e⟩ k) := by
  rw [lay]
  split
  · obtain ⟨k, hk⟩ := literal_writes n e true
    refine ⟨k, .point hk ?_⟩
    by_cases he : 0 ≤ e
    · simp [he, Layout.full]
    · have hplaces : (-e).toNat ≠ 0 := by omega
      simp [plain, signText, he, mem_pointed hplaces]
  · have hread : widen ⟨false, n, e⟩ 0 =
        ⟨false, n, -((digitsOf n).length - 1 : Nat) + top ⟨false, n, e⟩⟩ := by
      have hpos := digitCount_pos n
      simp only [widen, top, length_digitsOf, Decimal.mk.injEq, true_and, Nat.pow_zero, Nat.mul_one]
      omega
    exact ⟨0, hread ▸ .exponent (writes_mantissa n) (top ⟨false, n, e⟩)⟩

end Decimal

namespace Magnitude

/-- The text of a number that is not negative. -/
def text (m : Magnitude) : List Char := (Binary64.finite false m).text.toList

/-- **The text of a number is marked as such and writes the shortest decimal.** -/
theorem marked_text (m : Magnitude) :
    ∃ k : Nat, Numeral.Marked m.text ((Binary64.shortestMagnitude m).widen k) := by
  obtain ⟨n, e, h⟩ := Binary64.exists_shortestMagnitude m
  rw [text, Binary64.text, String.toList_ofList, Binary64.shortest_false, h]
  exact Decimal.marked_lay n e

end Magnitude

/-- A negative number is written with a minus sign in front. -/
theorem Binary64.toList_text (s : Bool) (m : Magnitude) :
    (finite s m).text.toList = Decimal.signText s m.text := by
  obtain ⟨n, e, h⟩ := exists_shortestMagnitude m
  rw [Magnitude.text, text, text, String.toList_ofList, String.toList_ofList, shortest, shortest, h]
  exact Decimal.lay_eq_signText .full s n e

/-- A whole number is written as its sign and the digits of its absolute value. -/
theorem toList_intText (z : Int) : (intText z).toList = Decimal.signText (z < 0) (digitsOf z.natAbs) := by
  by_cases h : z < 0
  · simp [intText, natText, Decimal.signText, h]
  · simp [intText, natText, Decimal.signText, h]

end Tariff
