/-
# Literals read back

The literal of a finite number is a minus sign if the number is negative, minus zero included, and then
positional notation: digits, perhaps with a point and further digits. Without the sign it is a number
lexeme that reads back as the number without its sign (`numberValue_literal`), so the sign is left to
the operator in front.

| number | literal | lexemes |
| --- | --- | --- |
| `0.1` | `0.1` | `0.1` |
| `-5.0` | `-5.0` | `-`, `5.0` |
| `-0.0` | `-0.0` | `-`, `0.0` |
| `1e+16` | `10000000000000000` | `10000000000000000` |
-/

import Tariff.Formula.Parser
import Tariff.Proofs.Number.ReadBack
import Tariff.Proofs.Text

namespace Tariff

attribute [local instance (high)] instPowNat

namespace Numeral

/-- Digits, perhaps with a point and further digits behind it; at least one digit. -/
inductive Positional : List Char → Prop where
  | whole {digits : List Char} (hne : digits ≠ []) (h : ∀ c ∈ digits, c.isDigit) : Positional digits
  | point {digits places : List Char} (hne : digits ≠ [] ∨ places ≠ []) (h : ∀ c ∈ digits, c.isDigit)
      (h' : ∀ c ∈ places, c.isDigit) : Positional (digits ++ '.' :: places)

theorem Positional.ne_nil {cs : List Char} (h : Positional cs) : cs ≠ [] := by
  cases h with
  | whole hne h => exact hne
  | point hne h h' => simp

/-- Positional notation is made of digits and a point. -/
theorem Positional.mem {cs : List Char} (h : Positional cs) {c : Char} (hc : c ∈ cs) : c.isDigit ∨ c = '.' := by
  cases h with
  | whole hne hdigits => exact .inl (hdigits c hc)
  | point hne hdigits hplaces =>
    rcases List.mem_append.1 hc with hc | hc
    · exact .inl (hdigits c hc)
    rcases List.mem_cons.1 hc with rfl | hc
    · exact .inr rfl
    · exact .inl (hplaces c hc)

/-- Further digits at either end leave positional notation as it is. -/
theorem Positional.glue {cs before after : List Char} (h : Positional cs)
    (hb : ∀ c ∈ before, c.isDigit) (ha : ∀ c ∈ after, c.isDigit) :
    Positional (before ++ cs ++ after) := by
  cases h with
  | whole hne h =>
    refine .whole (by simp [hne]) fun c hc => ?_
    simp only [List.mem_append] at hc
    rcases hc with (hc | hc) | hc
    · exact hb c hc
    · exact h c hc
    · exact ha c hc
  | @point digits places hne h h' =>
    rw [show before ++ (digits ++ '.' :: places) ++ after =
      (before ++ digits) ++ '.' :: (places ++ after) by simp]
    refine .point (hne.imp (by simp +contextual) (by simp +contextual)) (fun c hc => ?_) fun c hc => ?_
    · exact (List.mem_append.1 hc).elim (hb c) (h c)
    · exact (List.mem_append.1 hc).elim (h' c) (ha c)

/-- Digits with something behind that is neither a digit nor a point. -/
theorem decimal?_whole_append {digits tail : List Char} (hne : digits ≠ []) (h : ∀ c ∈ digits, c.isDigit)
    (ht : ∀ c ∈ tail.head?, c.isDigit = false ∧ c ≠ '.') (negative : Bool) :
    decimal? negative (digits ++ tail) = (exponent? tail).map fun e => ⟨negative, digitsValue digits, e⟩ := by
  have hdigit : ∀ c ∈ tail.head?, c.isDigit = false := fun c hc => (ht c hc).1
  simp only [decimal?, takeWhile_run h hdigit, dropWhile_run h hdigit]
  split
  · exact absurd rfl (ht '.' rfl).2
  · simp [hne]

/-- A point among digits and something behind them that is no digit. -/
theorem decimal?_point_append {digits places tail : List Char} (hne : digits ≠ [] ∨ places ≠ [])
    (h : ∀ c ∈ digits, c.isDigit) (h' : ∀ c ∈ places, c.isDigit) (ht : ∀ c ∈ tail.head?, c.isDigit = false)
    (negative : Bool) :
    decimal? negative (digits ++ '.' :: (places ++ tail)) =
      (exponent? tail).map fun e => ⟨negative, digitsValue (digits ++ places), e - places.length⟩ := by
  have hpoint : ∀ c ∈ ('.' :: (places ++ tail)).head?, c.isDigit = false := by simp
  have hempty : (digits.isEmpty && places.isEmpty) = false := by
    rcases hne with hne | hne <;> simp [hne]
  simp only [decimal?, takeWhile_run h hpoint, dropWhile_run h hpoint, takeWhile_run h' ht, dropWhile_run h' ht,
    hempty, Bool.false_eq_true, if_false]

/-- Digits alone write the whole number that they have in base ten. -/
theorem decimal?_whole {digits : List Char} (hne : digits ≠ []) (h : ∀ c ∈ digits, c.isDigit)
    (negative : Bool) : decimal? negative digits = some ⟨negative, digitsValue digits, 0⟩ := by
  have := @decimal?_whole_append digits [] hne h (by simp) negative
  simpa [exponent?] using this

/-- Digits with a point write the number of all the digits, shifted by as many places as there are behind the
point. -/
theorem decimal?_point {digits places : List Char} (hne : digits ≠ [] ∨ places ≠ [])
    (h : ∀ c ∈ digits, c.isDigit) (h' : ∀ c ∈ places, c.isDigit) (negative : Bool) :
    decimal? negative (digits ++ '.' :: places) =
      some ⟨negative, digitsValue (digits ++ places), -places.length⟩ := by
  have := @decimal?_point_append digits places [] hne h h' (by simp) negative
  simpa [exponent?] using this

/-- The sign is not in the digits: it is handed in and handed on. -/
theorem negative_of_decimal? {negative : Bool} {cs : List Char} {d : Decimal}
    (h : decimal? negative cs = some d) : d.negative = negative := by
  simp only [decimal?, Option.ite_none_left_eq_some, Option.map_eq_some_iff] at h
  obtain ⟨-, e, -, rfl⟩ := h
  rfl

/-! ### The digits of a whole number -/

/-- The characters for the numbers below ten are digits. -/
theorem isDigit_digitChar {d : Nat} (h : d < 10) : (digitChar d).isDigit := by
  have : ∀ d < 10, (digitChar d).isDigit := by decide
  exact this d h

/-- The character for a number below ten has that number as its value when it is read. -/
theorem toNat_digitChar {d : Nat} (h : d < 10) : (digitChar d).toNat - '0'.toNat = d := by
  have : ∀ d < 10, (digitChar d).toNat - '0'.toNat = d := by decide
  exact this d h

/-- Digits that were written are read back: what is in front of them is shifted, and the number added. -/
theorem foldl_digitsOnto (n : Nat) (acc : List Char) :
    (digitsOnto n acc).foldl (fun n c => 10 * n + (c.toNat - '0'.toNat)) 0 =
      acc.foldl (fun n c => 10 * n + (c.toNat - '0'.toNat)) n := by
  fun_induction digitsOnto n acc with
  | case1 n acc h => simp only [List.foldl_cons, toNat_digitChar h, Nat.mul_zero, Nat.zero_add]
  | case2 n acc h ih =>
    rw [ih, List.foldl_cons, toNat_digitChar (Nat.mod_lt n (by decide)), Nat.div_add_mod]

/-- **The digits of a whole number write it.** They are put in front one by one, the last first, and read from
the front. -/
theorem digitsValue_digitsOf (n : Nat) : digitsValue (digitsOf n) = n :=
  foldl_digitsOnto n []

theorem isDigit_of_mem_digitsOnto {n : Nat} {acc : List Char} (h : ∀ c ∈ acc, c.isDigit) :
    ∀ c ∈ digitsOnto n acc, c.isDigit := by
  fun_induction digitsOnto n acc with
  | case1 n acc hn =>
    intro c hc
    rcases List.mem_cons.1 hc with rfl | hc
    · exact isDigit_digitChar hn
    · exact h c hc
  | case2 n acc hn ih =>
    refine ih fun c hc => ?_
    rcases List.mem_cons.1 hc with rfl | hc
    · exact isDigit_digitChar (Nat.mod_lt n (by decide))
    · exact h c hc

theorem isDigit_of_mem_digitsOf (n : Nat) : ∀ c ∈ digitsOf n, c.isDigit :=
  isDigit_of_mem_digitsOnto (by simp)

theorem digitsOnto_ne_nil (n : Nat) (acc : List Char) : digitsOnto n acc ≠ [] := by
  fun_induction digitsOnto n acc with
  | case1 => simp
  | case2 n acc hn ih => exact ih

theorem digitsOf_ne_nil (n : Nat) : digitsOf n ≠ [] := digitsOnto_ne_nil n []

/-- Zeros in front change no value. -/
theorem digitsValue_replicate_append (k : Nat) (cs : List Char) :
    digitsValue (List.replicate k '0' ++ cs) = digitsValue cs := by
  induction k with
  | zero => rfl
  | succ k ih => exact ih

/-- A zero behind makes ten of one. -/
theorem digitsValue_append_zero (cs : List Char) : digitsValue (cs ++ ['0']) = digitsValue cs * 10 := by
  simp only [digitsValue, List.foldl_append, List.foldl_cons, List.foldl_nil]
  exact Nat.mul_comm _ _

/-! ### Positional notation -/

/-- A text is positional notation of a decimal. -/
structure Writes (cs : List Char) (d : Decimal) : Prop where
  positional : Positional cs
  decimal : decimal? false cs = some d

/-- The digits of a number are positional notation that writes it. -/
theorem writes_digitsOf (n : Nat) : Writes (digitsOf n) ⟨false, n, 0⟩ where
  positional := .whole (digitsOf_ne_nil n) (isDigit_of_mem_digitsOf n)
  decimal := by rw [decimal?_whole (digitsOf_ne_nil n) (isDigit_of_mem_digitsOf n), digitsValue_digitsOf]

/-- A whole number marked as such. -/
theorem writes_digitsOf_append (n : Nat) : Writes (digitsOf n ++ ['.', '0']) ⟨false, n * 10, -1⟩ where
  positional := .point (.inr (by simp)) (isDigit_of_mem_digitsOf n) (by simp)
  decimal := by
    rw [decimal?_point (.inr (by simp)) (isDigit_of_mem_digitsOf n) (by simp), digitsValue_append_zero,
      digitsValue_digitsOf]
    rfl

/-- With no places behind the point there is no point. -/
theorem pointed_zero {digits : List Char} (hne : digits ≠ []) : pointed digits 0 = digits := by
  have : 0 + 1 - digits.length = 0 := by
    have := List.length_pos_iff.2 hne
    omega
  simp [pointed, this]

/-- Zeros in front of digits are digits. -/
theorem isDigit_of_mem_padded {digits : List Char} (h : ∀ c ∈ digits, c.isDigit) (k : Nat) :
    ∀ c ∈ List.replicate k '0' ++ digits, c.isDigit := by
  intro c hc
  rcases List.mem_append.1 hc with hc | hc
  · rw [List.eq_of_mem_replicate hc]
    decide
  · exact h c hc

/-- With a point set so many places from the end, digits write the number at that exponent; noughts are put in
front where digits are too few. -/
theorem writes_pointed (n places : Nat) (h : 0 < places) :
    Writes (pointed (digitsOf n) places) ⟨false, n, -places⟩ := by
  have hne : places ≠ 0 := by omega
  simp only [pointed, hne, ↓reduceIte]
  generalize hp : List.replicate (places + 1 - (digitsOf n).length) '0' ++ digitsOf n = padded
  have hvalue : digitsValue padded = n := by
    rw [← hp, digitsValue_replicate_append, digitsValue_digitsOf]
  have hlength : places < padded.length := by
    rw [← hp, List.length_append, List.length_replicate]
    omega
  have hdigits : ∀ c ∈ padded, c.isDigit := by
    rw [← hp]
    exact isDigit_of_mem_padded (isDigit_of_mem_digitsOf n) _
  have htake : ∀ c ∈ padded.take (padded.length - places), c.isDigit :=
    fun c hc => hdigits c (List.mem_of_mem_take hc)
  have hdrop : ∀ c ∈ padded.drop (padded.length - places), c.isDigit :=
    fun c hc => hdigits c (List.mem_of_mem_drop hc)
  have hplaces : padded.drop (padded.length - places) ≠ [] := by
    rw [Ne, List.drop_eq_nil_iff]
    omega
  refine ⟨.point (.inr hplaces) htake hdrop, ?_⟩
  rw [decimal?_point (.inr hplaces) htake hdrop, List.take_append_drop, hvalue, List.length_drop,
    Nat.sub_sub_self (Nat.le_of_lt hlength)]

/-- In front of the point there is a digit. -/
theorem isDigit_head?_pointed {digits : List Char} (h : ∀ c ∈ digits, c.isDigit) (places : Nat) :
    ∀ c ∈ (pointed digits places).head?, c.isDigit := by
  intro c hc
  simp only [pointed] at hc
  generalize hp : List.replicate (places + 1 - digits.length) '0' ++ digits = padded at hc
  have hpadded : ∀ c ∈ padded, c.isDigit := by
    rw [← hp]
    exact isDigit_of_mem_padded h _
  have hlength : places < padded.length := by
    rw [← hp, List.length_append, List.length_replicate]
    omega
  split at hc
  · exact hpadded c (List.mem_of_mem_head? hc)
  · obtain ⟨d, ds, rfl⟩ := List.exists_cons_of_length_pos (show 0 < padded.length by omega)
    have hwhole : (d :: ds).length - places = ((d :: ds).length - places - 1) + 1 := by omega
    rw [hwhole, List.take_succ_cons, List.cons_append] at hc
    obtain rfl := Option.some.inj hc
    exact hpadded _ List.mem_cons_self

end Numeral

/-- Positional notation reads back as the decimal that it was made from, trailing zeros aside. -/
theorem Decimal.literal_writes (digits : Nat) (exponent : Int) (positional : Bool) : ∃ k : Nat,
    Numeral.Writes (Decimal.plain ⟨false, digits, exponent⟩ ++
      if positional && 0 ≤ exponent then ['.', '0'] else []) (widen ⟨false, digits, exponent⟩ k) := by
  by_cases hexp : 0 ≤ exponent
  · have hplain : Decimal.plain ⟨false, digits, exponent⟩ = digitsOf (digits * 10 ^ exponent.toNat) := by
      simp [Decimal.plain, Decimal.signText, hexp, Numeral.pointed_zero, Numeral.digitsOf_ne_nil]
    rw [hplain]
    cases positional with
    | false =>
      have hwhole : widen ⟨false, digits, exponent⟩ exponent.toNat =
          ⟨false, digits * 10 ^ exponent.toNat, 0⟩ := by
        simp only [widen, Decimal.mk.injEq, true_and]
        omega
      exact ⟨exponent.toNat, by simpa [hwhole] using Numeral.writes_digitsOf _⟩
    | true =>
      have hmarked : widen ⟨false, digits, exponent⟩ (exponent.toNat + 1) =
          ⟨false, digits * 10 ^ exponent.toNat * 10, -1⟩ := by
        simp only [widen, Decimal.mk.injEq, true_and, Nat.pow_succ, Nat.mul_assoc]
        omega
      exact ⟨exponent.toNat + 1, by simpa [hmarked, hexp] using Numeral.writes_digitsOf_append _⟩
  · have hplain : Decimal.plain ⟨false, digits, exponent⟩ = pointed (digitsOf digits) (-exponent).toNat := by
      simp [Decimal.plain, Decimal.signText, hexp]
    have hwrites := Numeral.writes_pointed digits (-exponent).toNat (by omega)
    rw [show -((-exponent).toNat : Int) = exponent by omega] at hwrites
    exact ⟨0, by simpa [widen, hplain, hexp] using hwrites⟩

/-- The literal of a number that is not negative. -/
def Magnitude.literal (m : Magnitude) : List Char := (Binary64.finite false m).literal.toList

namespace Binary64

theorem shortest_false (m : Magnitude) : shortest false m = shortestMagnitude m := by
  rw [shortest, ← shortestMagnitude_negative m]

/-- How a finite number is spelled in a formula: sign and digits in full, with a `.0` behind a whole number that
would be written without exponent. -/
theorem toList_literal (s : Bool) (m : Magnitude) : (finite s m).literal.toList =
    (shortest s m).plain ++
      if Layout.full.isPositional (shortest s m) && 0 ≤ (shortest s m).exponent then ['.', '0'] else [] := by
  simp only [literal, String.toList_ofList, Decimal.lay]
  cases Layout.full.isPositional (shortest s m) with
  | false => simp
  | true => simp [Layout.full]

/-- A negative number is written with a minus sign in front. -/
theorem toList_literal_eq_signText (s : Bool) (m : Magnitude) :
    (finite s m).literal.toList = Decimal.signText s m.literal := by
  cases s with
  | false => rfl
  | true =>
    rw [Magnitude.literal, toList_literal, toList_literal]
    rfl

end Binary64

namespace Magnitude

/-- **The literal writes the shortest decimal.** Its noughts and its `.0` are there for the layout and make no
difference to the decimal but for its exponent. -/
theorem literal_writes (m : Magnitude) :
    ∃ k : Nat, Numeral.Writes m.literal ((Binary64.shortestMagnitude m).widen k) := by
  rw [literal, Binary64.toList_literal, Binary64.shortest_false]
  obtain ⟨digits, exponent, h⟩ := Binary64.exists_shortestMagnitude m
  rw [h]
  exact Decimal.literal_writes digits exponent _

/-- A literal begins with a digit. -/
theorem isDigit_head?_literal (m : Magnitude) : ∀ c ∈ m.literal.head?, c.isDigit := by
  obtain ⟨digits, exponent, h⟩ := Binary64.exists_shortestMagnitude m
  obtain ⟨k, hwrites⟩ := Decimal.literal_writes digits exponent false
  have hne : Decimal.plain ⟨false, digits, exponent⟩ ≠ [] := by simpa using hwrites.positional.ne_nil
  have hplain : ∀ c ∈ (Decimal.plain ⟨false, digits, exponent⟩).head?, c.isDigit := by
    simp only [Decimal.plain, Decimal.signText, Bool.false_eq_true, if_false]
    split
    · exact Numeral.isDigit_head?_pointed (Numeral.isDigit_of_mem_digitsOf _) _
    · exact Numeral.isDigit_head?_pointed (Numeral.isDigit_of_mem_digitsOf _) _
  obtain ⟨c, cs, hcs⟩ := List.exists_cons_of_ne_nil hne
  rw [hcs] at hplain
  rw [literal, Binary64.toList_literal, Binary64.shortest_false, h, hcs]
  exact hplain

/-- Apart from its sign, the text put in for a finite number is positional notation: digits with at most one
point, and never an exponent. -/
theorem literal_positional (m : Magnitude) : Numeral.Positional m.literal := by
  obtain ⟨k, hk⟩ := m.literal_writes
  exact hk.positional

/-- **Without its sign a literal reads back exactly.** The shortest decimal is one that is rounded to the
number, and a formula reads numbers by the same rounding. -/
theorem numberValue_literal (m : Magnitude) : Formula.numberValue m.literal = .finite false m := by
  obtain ⟨k, hk⟩ := m.literal_writes
  rw [Formula.numberValue, hk.decimal, Option.map_some, Decimal.toBinary64_widen,
    Binary64.toBinary64_shortestMagnitude, Option.getD_some]

end Magnitude
end Tariff
