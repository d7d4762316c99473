/-
# Numbers compared by triggers

A trigger compares amounts, and an amount is read off a text. So a number among the answers is written out first, and
all but digits, points and hyphens is left out of what is written. A whole number comes back unchanged, and so does a
binary64 in positional notation. An exponent loses its mark, and with it the number loses its size.

| answer | its text | what is left | amount |
| --- | --- | --- | --- |
| `1000` | `1000` | `1000` | `1000` |
| `-0.5` | `-0.5` | `-0.5` | `-0.5` |
| `0.00001` | `1e-05` | `1-05` | none |
| `10 ^ 16` | `1e+16` | `116` | `116` |
| `2.5 * 10 ^ 20` | `2.5e+20` | `2.520` | `2.52` |

The numbers in positional notation are zero and those from `0.0001` on and below `10 ^ 16` (`Binary64.isPlain`).
-/

import Tariff.Proofs.Answers
import Tariff.Proofs.Number.Money
import Tariff.Proofs.Number.Sums
import Tariff.Proofs.Number.Text
import Tariff.Trigger

namespace Tariff

attribute [local instance (high)] instPowNat

/-! ### Texts of digits, points and hyphens -/

namespace Numeral

open Trigger (isAmountChar)

/-- The digits are the characters for the numbers below ten. -/
theorem exists_digitChar {c : Char} (h : c.isDigit) : ∃ d < 10, c = digitChar d := by
  simp only [Char.isDigit, ge_iff_le, Bool.and_eq_true, decide_eq_true_eq] at h
  have hlo : 48 ≤ c.toNat := h.1
  have hhi : c.toNat ≤ 57 := h.2
  refine ⟨c.toNat - 48, by omega, ?_⟩
  rw [digitChar, show '0'.toNat + (c.toNat - 48) = c.toNat by simp; omega, Char.ofNat_toNat]

/-- What holds of the ten digits, the point and the hyphen holds of every character of an amount. -/
theorem forall_isAmountChar {p : Char → Prop} (hdigits : ∀ d < 10, p (digitChar d)) (hpoint : p '.') (hhyphen : p '-')
    {c : Char} (h : isAmountChar c) : p c := by
  simp only [isAmountChar, Bool.or_eq_true, decide_eq_true_eq] at h
  rcases h with (h | rfl) | rfl
  · obtain ⟨d, hd, rfl⟩ := exists_digitChar h
    exact hdigits d hd
  · exact hpoint
  · exact hhyphen

variable {cs : List Char} (h : ∀ c ∈ cs, isAmountChar c)

include h

/-- Nothing is to be made ready in the text of an amount. -/
theorem normalise_of_isAmountChar : normalise (String.ofList cs) = some cs := by
  have hpadding : ∀ c ∈ cs, isPadding c = false := fun c hc =>
    forall_isAmountChar (p := fun c => isPadding c = false) (by decide +kernel) (by decide +kernel) (by decide +kernel)
      (h c hc)
  have hplain : plainDigits cs = cs := by
    refine (List.map_congr_left fun c hc => ?_).trans cs.map_id
    exact forall_isAmountChar (p := fun c => ((decimalValue? c).map digitChar).getD c = c) (by decide +kernel)
      (by decide +kernel) (by decide +kernel) (h c hc)
  have hungroup : ∀ c ∈ cs, c ≠ '_' := fun c hc =>
    forall_isAmountChar (p := fun c => c ≠ '_') (by decide) (by decide) (by decide) (h c hc)
  rw [normalise, String.toList_ofList, unpad_eq_self hpadding, hplain, ungroup_eq_some hungroup]

/-- Digits, points and hyphens name no number. -/
theorem named?_of_isAmountChar (negative : Bool) : named? negative cs = none := by
  have hletter (first : Char) (hfirst : first = 'i' ∨ first = 'n') (rest : List Char) :
      String.ofList (cs.map Char.toLower) ≠ String.ofList (first :: rest) := by
    intro heq
    obtain ⟨c, hc, hlower⟩ : ∃ c ∈ cs, c.toLower = first := by
      rw [← List.mem_map, String.ofList_injective heq]
      exact List.mem_cons_self
    have hother := forall_isAmountChar (p := fun c => c.toLower ≠ 'i' ∧ c.toLower ≠ 'n') (by decide) (by decide)
      (by decide) (h c hc)
    rcases hfirst with rfl | rfl
    · exact hother.1 hlower
    · exact hother.2 hlower
  rw [named?, if_neg, if_neg (hletter 'n' (.inr rfl) ['a', 'n'])]
  simp only [Bool.or_eq_true, decide_eq_true_eq]
  rintro (hinf | hinf)
  · exact hletter 'i' (.inl rfl) ['n', 'f'] hinf
  · exact hletter 'i' (.inl rfl) ['n', 'f', 'i', 'n', 'i', 't', 'y'] hinf

/-- Among digits, points and hyphens there is no white space to trim and no group mark, so the number is that of
the text as it stands. -/
theorem number?_of_isAmountChar : number? cs = (written? cs).map Decimal.toBinary64 := by
  have hunsigned : ∀ c ∈ (signed cs).2, isAmountChar c := by
    intro c hc
    refine h c ?_
    unfold signed at hc
    split at hc
    · exact List.mem_cons_of_mem _ hc
    · exact List.mem_cons_of_mem _ hc
    · exact hc
  unfold number? written?
  simp only [named?_of_isAmountChar hunsigned]

omit h

/-- Positional notation always writes a decimal. -/
theorem Positional.exists_decimal? {digits : List Char} (h : Positional digits) : ∃ d, decimal? false digits = some d := by
  cases h with
  | whole hne hdigits => exact ⟨_, decimal?_whole hne hdigits false⟩
  | point hne hdigits hplaces => exact ⟨_, decimal?_point hne hdigits hplaces false⟩

theorem isAmountChar_of_isDigit {c : Char} (h : c.isDigit) : isAmountChar c := by simp [isAmountChar, h]

/-- All of positional notation is kept, the sign in front too. -/
theorem isAmountChar_of_positional {digits : List Char} (h : Positional digits) (negative : Bool) :
    ∀ c ∈ Decimal.signText negative digits, isAmountChar c := by
  have hdigits : ∀ c ∈ digits, isAmountChar c := by
    intro c hc
    rcases h.mem hc with hdigit | rfl
    · exact isAmountChar_of_isDigit hdigit
    · decide
  cases negative with
  | false => exact hdigits
  | true =>
    intro c hc
    rcases List.mem_cons.1 hc with rfl | hc
    · decide
    · exact hdigits c hc

end Numeral

namespace Trigger

open Numeral

/-- **The amount of a text is what the digits, points and hyphens in it write.** Among these characters nothing
is left to trim or to ungroup, so the numeral is read as it stands. -/
theorem amount?_eq (s : String) : amount? s = (written? (s.toList.filter isAmountChar)).map Decimal.toBinary64 := by
  have hkept : ∀ c ∈ s.toList.filter isAmountChar, isAmountChar c := fun c hc => (List.mem_filter.1 hc).2
  rw [amount?, Binary64.parse?, normalise_of_isAmountChar hkept, Option.bind_some, number?_of_isAmountChar hkept]

/-- Positional notation with a sign is read as it stands. -/
theorem amount?_of_positional {s : String} {negative : Bool} {digits : List Char}
    (hs : s.toList = Decimal.signText negative digits) (h : Positional digits) :
    amount? s = (written? s.toList).map Decimal.toBinary64 := by
  rw [amount?_eq, hs, List.filter_eq_self.2 (isAmountChar_of_positional h negative)]

end Trigger

/-! ### Whole numbers -/

/-- A whole number of more than 309 digits is beyond the format. -/
theorem Binary64.ofRatio_of_digitCount {n : Nat} (h : 309 < digitCount n) (negative : Bool) :
    ofRatio negative (n * unitsPerOne) 1 = infinite negative := by
  have hlarge : (10 : Nat) ^ (309 : Nat) ≤ n :=
    Nat.not_lt.1 (mt (@digitCount_le_iff 309 (by decide) n).2 (Nat.not_le.2 h))
  have hlimit : Magnitude.limit ≤ nearestUnits ((10 : Nat) ^ (309 : Nat) * unitsPerOne) 1 := by decide +kernel
  have hmono := nearestUnits_mono (Nat.mul_le_mul_right unitsPerOne hlarge) Nat.one_pos
  rw [ofRatio, dif_neg (Nat.not_lt.2 (Nat.le_trans hlimit hmono))]

/-- A whole number in decimal is read as the nearest number to it, however large it is. -/
theorem Decimal.toBinary64_int (z : Int) : toBinary64 ⟨z < 0, z.natAbs, 0⟩ = .ofInt z := by
  by_cases hz : z = 0
  · subst hz
    decide +kernel
  have hcount := digitCount_pos z.natAbs
  have hne : z.natAbs ≠ 0 := Int.natAbs_ne_zero.2 hz
  unfold toBinary64
  simp only [top]
  rw [if_neg (by omega)]
  split
  · rename_i htop
    exact (Binary64.ofRatio_of_digitCount (by omega) _).symm
  · simp [Binary64.ofInt]

/-- Without its sign a decimal is the nearest number without its sign. -/
theorem Decimal.abs_toBinary64 (s : Bool) (n : Nat) (e : Int) :
    (toBinary64 ⟨s, n, e⟩).abs = toBinary64 ⟨false, n, e⟩ := by
  have hratio (num den : Nat) : (Binary64.ofRatio s num den).abs = Binary64.ofRatio false num den := by
    unfold Binary64.ofRatio
    split <;> rfl
  simp only [toBinary64, top]
  repeat' split
  all_goals first | rfl | exact hratio _ _

/-- **The amount of a whole number is the nearest number to it.** All its characters are kept, so that it is
read back; what is lost is lost in rounding to binary64. -/
theorem Trigger.amount?_int (z : Int) : amount? (Json.int z).wording = some (.ofInt z) := by
  have hdigits := Numeral.writes_digitsOf z.natAbs
  have htext : (Json.int z).wording.toList = Decimal.signText (z < 0) (digitsOf z.natAbs) := toList_intText z
  rw [amount?_of_positional htext hdigits.positional, htext, Numeral.written?_signText hdigits.decimal,
    Option.map_some, Decimal.toBinary64_int]

/-! ### Numbers in positional notation -/

/-- The binary64 next to `0.0001`. -/
def Magnitude.leastPlain : Magnitude where
  units := 7378697629483821 * 2 ^ (1008 : Nat)
  units_lt := by
    unfold limit
    decide +kernel
  spacing_dvd := by decide +kernel

/-- `10 ^ 16`. -/
def Magnitude.beyondPlain : Magnitude where
  units := 10 ^ (16 : Nat) * 2 ^ (1074 : Nat)
  units_lt := by
    unfold limit
    decide +kernel
  spacing_dvd := by decide +kernel

namespace Binary64

/-- The smallest number written without an exponent is the binary64 of `0.0001`. -/
theorem toBinary64_leastPlain : Decimal.toBinary64 ⟨false, 1, -4⟩ = finite false .leastPlain := by decide +kernel

/-- The first number beyond those written without an exponent is the binary64 of `10 ^ 16`. -/
theorem toBinary64_beyondPlain : Decimal.toBinary64 ⟨false, 1, 16⟩ = finite false .beyondPlain := by decide +kernel

/-- A zero, or a size from `0.0001` on and below `10 ^ 16`: the numbers that are written without an exponent. -/
def isPlain (x : Binary64) : Bool :=
  x.isZero || (finite false .leastPlain).le x.abs && x.abs.lt (finite false .beyondPlain)

/-- For finite numbers, being written without an exponent is a matter of their units. -/
theorem isPlain_finite_iff {s : Bool} {m : Magnitude} : (finite s m).isPlain ↔
    m.units = 0 ∨ Magnitude.leastPlain.units ≤ m.units ∧ m.units < Magnitude.beyondPlain.units := by
  rw [isPlain, Bool.or_eq_true, Bool.and_eq_true, Binary64.abs, finite_lt_finite, finite_le_finite, isZero_finite_iff]

/-- **Numbers are written without an exponent just if they are plain.** The layout looks at the place of the
first digit, and that is bounded for plain numbers and for no others. -/
theorem isPositional_shortestMagnitude_iff {s : Bool} {m : Magnitude} :
    Layout.full.isPositional (shortestMagnitude m) ↔ (finite s m).isPlain := by
  have hleast : (shortestMagnitude .leastPlain).top = -4 := by decide +kernel
  have hbeyond : (shortestMagnitude .beyondPlain).top = 16 := by decide +kernel
  rw [isPlain_finite_iff, Layout.isPositional, Bool.and_eq_true, decide_eq_true_eq, decide_eq_true_eq]
  by_cases hm : m.units = 0
  · obtain rfl : m = .zero := Magnitude.ext_units hm
    exact iff_of_true (by decide +kernel) (.inl rfl)
  · rw [Layout.full, le_top_shortestMagnitude_iff toBinary64_leastPlain hleast hm, ← Int.not_le,
      le_top_shortestMagnitude_iff toBinary64_beyondPlain hbeyond hm, Nat.not_le]
    simp [hm]

/-- The shortest decimal of a finite number is read back as it, with its sign. -/
theorem toBinary64_shortest (s : Bool) (m : Magnitude) : (shortest s m).toBinary64 = finite s m := by
  obtain ⟨n, e, h⟩ := exists_shortestMagnitude m
  have hback := toBinary64_shortestMagnitude m
  rw [h] at hback
  rw [shortest, h]
  cases s with
  | false => exact hback
  | true => rw [show true = !false from rfl, Decimal.toBinary64_not, hback]; rfl

end Binary64

namespace Trigger

open Numeral Binary64

variable {s : Bool} {m : Magnitude}

/-- **The amount of a plain number is the number,** zeros with their signs. Its text has digits, a point and
perhaps a hyphen, which are all kept, and a shortest decimal is read back exactly. -/
theorem amount?_of_isPlain (h : (finite s m).isPlain) :
    amount? (Json.real (finite s m)).wording = some (finite s m) := by
  obtain ⟨n, e, hd⟩ := exists_shortestMagnitude m
  have hpositional := isPositional_shortestMagnitude_iff.2 h
  obtain ⟨k, hk⟩ := Decimal.literal_writes n e true
  have hm : m.text = Decimal.plain ⟨false, n, e⟩ ++ if true && 0 ≤ e then ['.', '0'] else [] := by
    rw [hd] at hpositional
    rw [Magnitude.text, Binary64.text, String.toList_ofList, shortest_false, hd, Decimal.lay, if_pos hpositional]
    rfl
  rw [← hm] at hk
  have htext : (Json.real (finite s m)).wording.toList = Decimal.signText s m.text := toList_text s m
  rw [amount?_of_positional htext hk.positional, htext, written?_signText hk.decimal, Option.map_some]
  refine congrArg some ?_
  rw [← toBinary64_shortest s m, shortest, hd]
  exact Decimal.toBinary64_widen ⟨s, n, e⟩ k

/-! ### Numbers with an exponent -/

/-- The digits in front of an exponent, with a point behind the first of them if there are more. -/
def mantissa (n : Nat) : List Char := pointed (digitsOf n) ((digitsOf n).length - 1)

/-- The digits of an exponent, at least two. -/
def exponentDigits (top : Int) : List Char :=
  List.replicate (2 - (digitsOf top.natAbs).length) '0' ++ digitsOf top.natAbs

theorem isDigit_of_mem_exponentDigits (top : Int) : ∀ c ∈ exponentDigits top, c.isDigit :=
  isDigit_of_mem_padded (isDigit_of_mem_digitsOf _) _

/-- What is left out of a text with a sign is left out behind the sign. -/
theorem filter_signText (s : Bool) (cs : List Char) :
    (Decimal.signText s cs).filter isAmountChar = Decimal.signText s (cs.filter isAmountChar) := by
  cases s <;> rfl

/-- **An exponent loses its mark, and its sign unless that is a minus.** What is left are the digits of the
number and those of the exponent, run together or with a hyphen between them. -/
theorem filter_text_of_not_isPlain (h : (finite s m).isPlain = false) :
    (Json.real (finite s m)).wording.toList.filter isAmountChar =
      Decimal.signText s (mantissa (shortestMagnitude m).digits ++
        (if (shortestMagnitude m).top < 0 then ['-'] else []) ++ exponentDigits (shortestMagnitude m).top) := by
  obtain ⟨n, e, hd⟩ := exists_shortestMagnitude m
  have hscientific : Layout.full.isPositional ⟨false, n, e⟩ = false := by
    rw [← Bool.not_eq_true, ← hd, isPositional_shortestMagnitude_iff, h]
    exact Bool.false_ne_true
  have hmantissa : ∀ c ∈ mantissa n, isAmountChar c :=
    isAmountChar_of_positional (writes_mantissa n).positional false
  have hdigits : ∀ c ∈ exponentDigits (Decimal.top ⟨false, n, e⟩), isAmountChar c := fun c hc =>
    isAmountChar_of_isDigit (isDigit_of_mem_exponentDigits _ c hc)
  have htext : (Json.real (finite s m)).wording.toList = Decimal.signText s m.text := toList_text s m
  -- The text has the mark `e` and a sign behind its digits; of these only a minus is kept.
  have hm : m.text = mantissa n ++ 'e' :: (if Decimal.top ⟨false, n, e⟩ < 0 then '-' else '+') ::
      exponentDigits (Decimal.top ⟨false, n, e⟩) := by
    rw [Magnitude.text, Binary64.text, String.toList_ofList, shortest_false, hd, Decimal.lay, hscientific,
      if_neg Bool.false_ne_true]
    rfl
  rw [htext, filter_signText, hm, hd, List.filter_append, List.filter_eq_self.2 hmantissa, List.append_assoc]
  congr 2
  have hmark : isAmountChar 'e' = false := by decide
  rw [List.filter_cons_of_neg (by simp [hmark])]
  split
  · rw [List.filter_cons_of_pos (by decide), List.filter_eq_self.2 hdigits]
    rfl
  · rw [List.filter_cons_of_neg (by decide), List.filter_eq_self.2 hdigits]
    rfl

/-- Behind positional notation a hyphen goes with nothing. -/
theorem decimal?_hyphen {cs : List Char} (h : Positional cs) (rest : List Char) (negative : Bool) :
    decimal? negative (cs ++ '-' :: rest) = none := by
  have hnone : exponent? ('-' :: rest) = none := by simp [exponent?]
  cases h with
  | whole hne hdigits => rw [decimal?_whole_append hne hdigits (by simp), hnone, Option.map_none]
  | point hne hdigits hplaces =>
    rw [List.append_assoc, List.cons_append, decimal?_point_append hne hdigits hplaces (by simp), hnone,
      Option.map_none]

/-- A number nearer to zero than `0.0001` has its first digit behind the fourth place, for otherwise its
shortest decimal would be at least `0.0001`. -/
theorem top_shortestMagnitude_lt (hzero : (finite s m).isZero = false)
    (h : (finite s m).abs.lt (finite false .leastPlain)) : (shortestMagnitude m).top < -4 := by
  have hm : m.units ≠ 0 := fun hm => by simp [isZero_finite_iff.2 hm] at hzero
  rw [← Int.not_le, le_top_shortestMagnitude_iff toBinary64_leastPlain (by decide +kernel) hm]
  exact Nat.not_le.2 (finite_lt_finite.1 h)

/-- **A number below `0.0001` that is not zero has no amount.** The hyphen of its exponent is left in the middle
of the digits, and that is no numeral. -/
theorem amount?_of_lt (hzero : (finite s m).isZero = false) (h : (finite s m).abs.lt (finite false .leastPlain)) :
    amount? (Json.real (finite s m)).wording = none := by
  have htop := top_shortestMagnitude_lt hzero h
  have hplain : (finite s m).isPlain = false := by
    rw [← Bool.not_eq_true, ← isPositional_shortestMagnitude_iff, Layout.isPositional, Bool.and_eq_true,
      decide_eq_true_eq, Layout.full]
    exact fun hboth => Int.not_le.2 htop hboth.1
  have hmantissa := writes_mantissa (shortestMagnitude m).digits
  have hhead : ∀ c ∈ (mantissa (shortestMagnitude m).digits ++
      '-' :: exponentDigits (shortestMagnitude m).top).head?, c ≠ '-' ∧ c ≠ '+' := by
    rw [mantissa, List.head?_append, Option.or_of_isSome (List.isSome_head?.2 hmantissa.positional.ne_nil)]
    exact ne_sign_of_decimal? hmantissa.decimal
  rw [amount?_eq, filter_text_of_not_isPlain hplain, if_pos (by omega), List.append_assoc, List.singleton_append,
    written?, signed_signText_of_head? hhead]
  dsimp only
  rw [mantissa, decimal?_hyphen hmantissa.positional, Option.map_none]

/-- So many digits write a number below that power of ten. -/
theorem foldl_digits_lt {cs : List Char} (h : ∀ c ∈ cs, c.isDigit) (n : Nat) :
    cs.foldl (fun n c => 10 * n + (c.toNat - '0'.toNat)) n < (n + 1) * 10 ^ cs.length := by
  induction cs generalizing n with
  | nil => simp
  | cons c cs ih =>
    obtain ⟨d, hd, rfl⟩ := exists_digitChar (h c List.mem_cons_self)
    rw [List.foldl_cons, toNat_digitChar hd, List.length_cons]
    calc _ < (10 * n + d + 1) * 10 ^ cs.length := ih (fun c hc => h c (List.mem_cons_of_mem _ hc)) _
      _ ≤ ((n + 1) * 10) * 10 ^ cs.length := Nat.mul_le_mul_right _ (by omega)
      _ = (n + 1) * 10 ^ (cs.length + 1) := by rw [Nat.pow_succ, Nat.mul_assoc, Nat.mul_comm 10]

/-- As many digits write less than that power of ten. -/
theorem digitsValue_lt {cs : List Char} (h : ∀ c ∈ cs, c.isDigit) : digitsValue cs < 10 ^ cs.length := by
  have := foldl_digits_lt h 0
  rwa [Nat.zero_add, Nat.one_mul] at this

/-- What is written with at most four digits in front of the point is at most `10000`. -/
theorem toBinary64_digitsValue_le {cs : List Char} (h : ∀ c ∈ cs, c.isDigit) {places : Nat}
    (hlength : cs.length ≤ places + 4) :
    (Decimal.toBinary64 ⟨false, digitsValue cs, -places⟩).le (Decimal.toBinary64 ⟨false, 1, 4⟩) := by
  refine Decimal.toBinary64_le_ten_pow ?_
  have hlt := Nat.lt_of_lt_of_le (digitsValue_lt h) (Nat.pow_le_pow_right (by decide) hlength)
  have hcount := (digitCount_le_iff (by omega) (digitsValue cs)).2 hlt
  simp only [Decimal.top]
  omega

/-- An exponent has at most three digits, since no binary64 needs more. -/
theorem length_exponentDigits {top : Int} (h : top.natAbs < 1000) : (exponentDigits top).length ≤ 3 := by
  have hcount := (digitCount_le_iff (show 0 < 3 by decide) top.natAbs).2 h
  rw [exponentDigits, List.length_append, List.length_replicate, length_digitsOf]
  omega

/-- A mantissa with up to three further digits behind it writes at most `10000`. -/
theorem exists_decimal?_mantissa (n : Nat) {digits : List Char} (h : ∀ c ∈ digits, c.isDigit)
    (hlength : digits.length ≤ 3) : ∃ d, decimal? false (mantissa n ++ digits) = some d ∧
      d.toBinary64.le (Decimal.toBinary64 ⟨false, 1, 4⟩) := by
  have hall : ∀ c ∈ digitsOf n ++ digits, c.isDigit := by
    intro c hc
    exact (List.mem_append.1 hc).elim (isDigit_of_mem_digitsOf n c) (h c)
  have hpos : 0 < (digitsOf n).length := List.length_pos_iff.2 (digitsOf_ne_nil n)
  by_cases hone : (digitsOf n).length - 1 = 0
  · rw [mantissa, hone, pointed_zero (digitsOf_ne_nil n)]
    refine ⟨_, decimal?_whole (by simp [digitsOf_ne_nil]) hall false, ?_⟩
    exact @toBinary64_digitsValue_le _ hall 0 (by rw [List.length_append]; omega)
  · have hsplit : mantissa n ++ digits = (digitsOf n).take 1 ++ '.' :: ((digitsOf n).drop 1 ++ digits) := by
      have hpadding : (digitsOf n).length - 1 + 1 - (digitsOf n).length = 0 := by omega
      have hwhole : (digitsOf n).length - ((digitsOf n).length - 1) = 1 := by omega
      simp [mantissa, pointed, hone, hpadding, hwhole]
    have htake : ∀ c ∈ (digitsOf n).take 1, c.isDigit := fun c hc => isDigit_of_mem_digitsOf n c (List.mem_of_mem_take hc)
    have hdrop : ∀ c ∈ (digitsOf n).drop 1 ++ digits, c.isDigit := fun c hc =>
      (List.mem_append.1 hc).elim (fun hc => isDigit_of_mem_digitsOf n c (List.mem_of_mem_drop hc)) (h c)
    have hne : (digitsOf n).take 1 ≠ [] := by simp [digitsOf_ne_nil]
    rw [hsplit]
    refine ⟨_, decimal?_point (.inl hne) htake hdrop false, ?_⟩
    rw [← List.append_assoc, List.take_append_drop]
    exact toBinary64_digitsValue_le hall (by simp only [List.length_append, List.length_drop]; omega)

/-- The exponent of a number of the format has at most three digits. -/
theorem top_shortestMagnitude_le (m : Magnitude) : (shortestMagnitude m).top ≤ 309 := by
  have hback := toBinary64_shortestMagnitude m
  refine Int.not_lt.1 fun hlt => ?_
  rw [Decimal.toBinary64] at hback
  split at hback
  · rename_i hzero
    obtain rfl : m = .zero := (finite.inj hback).2.symm
    revert hlt
    decide +kernel
  · cases hback

/-- **The amount of a number from `10 ^ 16` on is at most `10000`.** In front of the point stand one digit or
the digits run together with those of the exponent, of which there are three at most. -/
theorem amount?_of_le (h : (finite false .beyondPlain).le (finite s m).abs) :
    ∃ y, amount? (Json.real (finite s m)).wording = some y ∧ y.abs.le (.ofNat 10000) := by
  rw [Binary64.abs, finite_le_finite] at h
  have hm : m.units ≠ 0 := Nat.ne_of_gt (Nat.lt_of_lt_of_le (by decide +kernel) h)
  have htop := (le_top_shortestMagnitude_iff toBinary64_beyondPlain (by decide +kernel) hm).2 h
  have hle := top_shortestMagnitude_le m
  have hplain : (finite s m).isPlain = false := by
    rw [← Bool.not_eq_true, isPlain_finite_iff]
    omega
  obtain ⟨d, hd, hamount⟩ := exists_decimal?_mantissa (shortestMagnitude m).digits
    (isDigit_of_mem_exponentDigits (shortestMagnitude m).top) (length_exponentDigits (by omega))
  have hnegative := negative_of_decimal? hd
  rw [amount?_eq, filter_text_of_not_isPlain hplain, if_neg (by omega), List.append_nil, written?_signText hd,
    Option.map_some]
  refine ⟨_, rfl, ?_⟩
  obtain ⟨negative, n, e⟩ := d
  obtain rfl : negative = false := hnegative
  rw [Decimal.abs_toBinary64, show Binary64.ofNat 10000 = Decimal.toBinary64 ⟨false, 1, 4⟩ by decide +kernel]
  exact hamount

/-! ### Comparisons -/

/-- A comparison on an answer that is there and not empty compares the amounts, without further conditions. -/
theorem holds_compares {answers v : Json} {field : String} (hfound : answers.atPath field = .ok (some v))
    (hanswered : v.isUnanswered = false) (required : String) (c : Comparison) :
    holds answers field required (Operator.compares c).name = .ok (met (.compares c) required v) := by
  unfold holds
  rw [hfound, ok_bind, Operator.ofName?_name]
  simp only [decides, hanswered, Bool.false_eq_true, if_false]
  rfl

/-- Two amounts are compared. -/
theorem met_compares {v : Json} {required : String} {x y : Binary64} (hx : amount? v.wording = some x)
    (hy : amount? required = some y) (c : Comparison) : met (.compares c) required v = c.holds x y := by
  simp only [met, hx, hy]

/-- Without an amount no comparison holds. -/
theorem met_compares_of_none {v : Json} (h : amount? v.wording = none) (required : String) (c : Comparison) :
    met (.compares c) required v = false := by
  simp only [met, h]

/-- **Numeric operators compare plain numbers.** With a requirement in positional notation, a whole number among the
answers is compared whatever its size, and so is a binary64 that is zero or from `0.0001` on and below `10 ^ 16`. One
nearer to zero meets no comparison, and one from `10 ^ 16` on is compared as if it were at most `10000`. -/
theorem holds_number {answers v : Json} {field : String} (hfound : answers.atPath field = .ok (some v))
    {required : String} {negative : Bool} {digits : List Char}
    (hrequired : required.toList = Decimal.signText negative digits) (hdigits : Positional digits) (c : Comparison) :
    ∃ r, written? required.toList = some r ∧
      (∀ n, v = .int n →
        holds answers field required (Operator.compares c).name = .ok (c.holds (.ofInt n) r.toBinary64)) ∧
      ∀ x, v = .real x → x.isFinite →
        (x.isPlain → holds answers field required (Operator.compares c).name = .ok (c.holds x r.toBinary64)) ∧
        (x.isZero = false → x.abs.lt (finite false .leastPlain) →
          holds answers field required (Operator.compares c).name = .ok false) ∧
        ((finite false .beyondPlain).le x.abs → ∃ y : Binary64, y.abs.le (.ofNat 10000) ∧
          holds answers field required (Operator.compares c).name = .ok (c.holds y r.toBinary64)) := by
  obtain ⟨r, hr⟩ : ∃ r, written? required.toList = some r := by
    obtain ⟨d, hd⟩ := hdigits.exists_decimal?
    exact ⟨_, hrequired ▸ written?_signText hd negative⟩
  have hamount : amount? required = some r.toBinary64 := by
    rw [amount?_of_positional hrequired hdigits, hr, Option.map_some]
  refine ⟨r, hr, ?_, ?_⟩
  · rintro n rfl
    rw [holds_compares hfound rfl, met_compares (amount?_int n) hamount]
  · rintro x rfl hx
    rw [holds_compares hfound rfl]
    -- The three sizes of a finite number: plain, too small, and too large.
    obtain ⟨s, m, rfl⟩ : ∃ s m, x = finite s m := by
      cases x with
      | finite s m => exact ⟨s, m, rfl⟩
      | infinite s => cases hx
      | nan => cases hx
    refine ⟨fun h => ?_, fun hzero h => ?_, fun h => ?_⟩
    · rw [met_compares (amount?_of_isPlain h) hamount]
    · rw [met_compares_of_none (amount?_of_lt hzero h)]
    · obtain ⟨y, hy, hle⟩ := amount?_of_le h
      exact ⟨y, hle, by rw [met_compares hy hamount]⟩

/-- An answer and a requirement that are both negative and have places. -/
def balanceAnswers : Json := .object [("balance", .real (Decimal.toBinary64 ⟨true, 5, -1⟩))]

/-- A balance of `-0.5` is less than `-0.25`: signs and places are kept on both sides. -/
theorem holds_number_balanceAnswers : holds balanceAnswers "balance" "-0.25" "lessThan" = .ok true := by
  have hfound : balanceAnswers.atPath "balance" = .ok (some (.real (Decimal.toBinary64 ⟨true, 5, -1⟩))) := rfl
  have hdigits : Positional ['0', '.', '2', '5'] :=
    @Positional.point ['0'] ['2', '5'] (.inl (by decide)) (by simp) (by simp)
  have hrequired : "-0.25".toList = Decimal.signText true ['0', '.', '2', '5'] := rfl
  obtain ⟨r, hr, -, hreal⟩ := holds_number hfound hrequired hdigits .less
  have hwritten : written? "-0.25".toList = some ⟨true, 25, -2⟩ := by decide +kernel
  obtain rfl := Option.some.inj (hwritten.symm.trans hr)
  have hholds : Comparison.less.holds (Decimal.toBinary64 ⟨true, 5, -1⟩) (Decimal.toBinary64 ⟨true, 25, -2⟩) = true := by
    decide +kernel
  rw [← hholds]
  exact (hreal _ rfl (by decide +kernel)).1 (by decide +kernel)

/-- An answer of `10 ^ 16`. -/
def revenueAnswers : Json := .object [("revenue", .real (finite false .beyondPlain))]

/-- **Numeric operators do not compare all numbers:** `10 ^ 16` is not greater than `1000`. -/
theorem not_forall_holds_number : ¬ ∀ (answers : Json) (field required : String) (x : Binary64) (negative : Bool)
    (digits : List Char) (r : Decimal) (c : Comparison), answers.atPath field = .ok (some (.real x)) → x.isFinite →
      required.toList = Decimal.signText negative digits → Positional digits → written? required.toList = some r →
        holds answers field required (Operator.compares c).name = .ok (c.holds x r.toBinary64) := by
  intro hall
  have hwritten : written? "1000".toList = some ⟨false, 1000, 0⟩ := by decide +kernel
  have hcompares := hall revenueAnswers "revenue" "1000" (finite false .beyondPlain) false
    ['1', '0', '0', '0'] ⟨false, 1000, 0⟩ .greater rfl rfl rfl (.whole (by decide) (by simp)) hwritten
  have hcode : (holds revenueAnswers "revenue" "1000" "greaterThan").toOption = some false := by decide +kernel
  have hnumbers : Comparison.greater.holds (finite false .beyondPlain) (Decimal.toBinary64 ⟨false, 1000, 0⟩) = true := by
    decide +kernel
  rw [hnumbers] at hcompares
  cases (congrArg Except.toOption hcompares).symm.trans hcode

end Trigger
end Tariff
