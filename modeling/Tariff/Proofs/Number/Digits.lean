/-
# Seventeen digits are enough

From one on, a number of the format differs from its neighbours by more than its last of seventeen digits
counts, so the decimal with seventeen digits that is nearest to it reads back
(`Binary64.isSome_onGrid?_seventeen`), and the search for the shortest decimal never takes every digit.

Hence the shortest decimal of what some number of cents reads as has at most two places
(`Binary64.exponent_shortestMagnitude_ge`): the search goes from coarse grids to fine ones, and on the grid of
cents one of the two neighbours of the number reads back as well, since reading keeps the order.
-/

import Tariff.Proofs.Number.Order

namespace Tariff

attribute [local instance (high)] instPowNat

/-! ### Quotients near a whole number -/

/-- Rounding in terms of quotient and remainder: below the half down, above it up, and at the half to the even
one. -/
theorem nearestEven_mul_add {r den : Nat} (h : r < den) (a : Nat) :
    nearestEven (a * den + r) den = if 2 * r < den then a else if den < 2 * r then a + 1 else a + a % 2 := by
  have hquotient : (a * den + r) / den = a := by
    rw [Nat.add_comm, Nat.add_mul_div_right _ _ (by omega), Nat.div_eq_of_lt h, Nat.zero_add]
  have hremainder : (a * den + r) % den = r := by
    rw [Nat.add_comm, Nat.add_mul_mod_self_right, Nat.mod_eq_of_lt h]
  simp only [nearestEven, hquotient, hremainder]

/-- What is nearer to a whole number than a half is rounded to it. -/
theorem nearestEven_eq_of_near {num den a : Nat} (hbelow : 2 * (a * den) < 2 * num + den)
    (habove : 2 * num < 2 * (a * den) + den) : nearestEven num den = a := by
  rcases Nat.le_total (a * den) num with hle | hlt
  · obtain ⟨r, rfl⟩ := Nat.exists_eq_add_of_le hle
    rw [nearestEven_mul_add (by omega), if_pos (by omega)]
  · cases a with
    | zero => simp [nearestEven, show num = 0 by omega, show 0 < den by omega]
    | succ b =>
      rw [Nat.add_mul, Nat.one_mul] at hbelow hlt
      obtain ⟨r, rfl⟩ : ∃ r, num = b * den + r := Nat.exists_eq_add_of_le (by omega)
      rcases Nat.lt_or_eq_of_le (show r ≤ den by omega) with hr | rfl
      · rw [nearestEven_mul_add hr, if_neg (by omega), if_pos (by omega)]
      · rw [← Nat.succ_mul, Nat.mul_comm, nearestEven_mul_left (by omega)]

/-- Rounding moves a quotient by at most a half. -/
theorem nearestEven_near (num : Nat) {den : Nat} (hden : 0 < den) :
    2 * (nearestEven num den * den) ≤ 2 * num + den ∧ 2 * num ≤ 2 * (nearestEven num den * den) + den := by
  have hsplit := Nat.div_add_mod num den
  have hlt := Nat.mod_lt num hden
  rw [Nat.mul_comm] at hsplit
  unfold nearestEven
  dsimp only
  split
  · omega
  split
  · rw [Nat.add_mul, Nat.one_mul]
    omega
  · rcases Nat.mod_two_eq_zero_or_one (num / den) with heven | hodd
    · rw [heven, Nat.add_zero]
      omega
    · rw [hodd, Nat.add_mul, Nat.one_mul]
      omega

/-- The binary length of a quotient, read off from bounds on what is divided. -/
theorem log2_div {num den k : Nat} (hden : 0 < den) (hleast : 2 ^ k * den ≤ num)
    (hbeyond : num < 2 ^ (k + 1) * den) : (num / den).log2 = k := by
  have hle : 2 ^ k ≤ num / den := (Nat.le_div_iff_mul_le hden).2 hleast
  have hne : num / den ≠ 0 := by
    have := Nat.two_pow_pos k
    omega
  exact (Nat.log2_eq_iff hne).2 ⟨hle, (Nat.div_lt_iff_lt_mul hden).2 hbeyond⟩

namespace Binary64

/-- The rounding to 53 binary digits, once the length of the quotient is known: round to a multiple of the
spacing. -/
theorem nearestUnits_eq {num den k : Nat} (h : (num / den).log2 = k + 52) :
    nearestUnits num den = nearestEven num (den * 2 ^ k) * 2 ^ k := by
  rw [nearestUnits, h, Nat.add_sub_cancel]

/-- From `2 ^ 53` units on, a magnitude is a number of `53` bits in units of its spacing. -/
theorem exists_eq_mul_spacing {m : Magnitude} (hm : 2 ^ (53 : Nat) ≤ m.units) :
    ∃ a k : Nat, m.units = a * 2 ^ (k + 1) ∧ 2 ^ (52 : Nat) ≤ a ∧ a < 2 ^ (53 : Nat) := by
  have hne : m.units ≠ 0 := by omega
  obtain ⟨k, hk⟩ : ∃ k, m.units.log2 = k + 53 := Nat.exists_eq_add_of_le' ((Nat.le_log2 hne).2 hm)
  obtain ⟨a, ha⟩ := m.spacing_dvd
  rw [hk, show k + 53 - 52 = k + 1 by omega] at ha
  have hs : 0 < 2 ^ (k + 1) := Nat.two_pow_pos _
  refine ⟨a, k, by rw [ha, Nat.mul_comm], ?_, ?_⟩
  · have hleast : 2 ^ (k + 53) ≤ m.units := hk ▸ Nat.log2_self_le hne
    rw [ha, show k + 53 = k + 1 + 52 by omega, Nat.pow_add 2 (k + 1)] at hleast
    exact Nat.le_of_mul_le_mul_left hleast hs
  · have hbeyond : m.units < 2 ^ (k + 53 + 1) := hk ▸ Nat.lt_log2_self
    rw [ha, show k + 53 + 1 = k + 1 + 53 by omega, Nat.pow_add 2 (k + 1)] at hbeyond
    exact Nat.lt_of_mul_lt_mul_left hbeyond

/-- **What is near a number of the format is rounded to it,** near meaning closer than its `2 ^ 54`th part. -/
theorem nearestUnits_eq_of_near {m : Magnitude} {num den : Nat} (hden : 0 < den)
    (hm : 2 ^ (53 : Nat) ≤ m.units)
    (hbelow : 2 ^ (54 : Nat) * (m.units * den) < 2 ^ (54 : Nat) * num + m.units * den)
    (habove : 2 ^ (54 : Nat) * num < 2 ^ (54 : Nat) * (m.units * den) + m.units * den) :
    nearestUnits num den = m.units := by
  obtain ⟨a, k, ha, haleast, habeyond⟩ := exists_eq_mul_spacing hm
  -- All is compared in multiples of the spacing below `2 ^ (k + 53)`, half of that above.
  have hpow (i : Nat) : 2 ^ (k + i) * den = 2 ^ i * (den * 2 ^ k) := by
    rw [Nat.pow_add, Nat.mul_comm (2 ^ k), Nat.mul_assoc, Nat.mul_comm (2 ^ k)]
  have hdouble : den * 2 ^ (k + 1) = 2 * (den * 2 ^ k) := by
    rw [Nat.pow_succ, Nat.mul_comm (2 ^ k), Nat.mul_left_comm]
  have hunits : m.units * den = 2 * (a * (den * 2 ^ k)) := by
    rw [ha, Nat.mul_assoc, Nat.mul_comm _ den, hdouble, Nat.mul_left_comm]
  rw [hunits] at hbelow habove
  have hlow : 2 ^ 52 * (den * 2 ^ k) ≤ a * (den * 2 ^ k) := Nat.mul_le_mul_right _ haleast
  have hhigh : a * (den * 2 ^ k) ≤ (2 ^ 53 - 1) * (den * 2 ^ k) := Nat.mul_le_mul_right _ (by omega)
  by_cases hnum : 2 ^ (k + 53) * den ≤ num
  · have hlog : (num / den).log2 = k + 1 + 52 := by
      refine log2_div hden hnum ?_
      rw [Nat.add_assoc, hpow (53 + 1)]
      omega
    have hnearest : nearestEven num (den * 2 ^ (k + 1)) = a := by
      rw [hdouble]
      refine nearestEven_eq_of_near ?_ ?_
      · rw [Nat.mul_left_comm a]
        omega
      · rw [Nat.mul_left_comm a]
        omega
    rw [nearestUnits_eq hlog, hnearest, ha]
  · -- Only the number at the power of two has anything near it below.
    have hD : 0 < den * 2 ^ k := Nat.mul_pos hden (Nat.two_pow_pos k)
    rw [hpow 53] at hnum
    have hpower : a = 2 ^ 52 := by
      refine Nat.le_antisymm (Nat.not_lt.1 fun hlt => ?_) haleast
      have := Nat.mul_le_mul_right (den * 2 ^ k) (show 2 ^ 52 + 1 ≤ a from hlt)
      omega
    subst hpower
    have hlog : (num / den).log2 = k + 52 := by
      refine log2_div hden ?_ ?_
      · rw [hpow 52]
        omega
      · rw [Nat.add_assoc, hpow (52 + 1)]
        omega
    have hnearest : nearestEven num (den * 2 ^ k) = 2 ^ 53 :=
      nearestEven_eq_of_near (by omega) (by omega)
    rw [nearestUnits_eq hlog, hnearest, ha, Nat.pow_succ 2 k]
    omega

/-- If a quotient is rounded to the units of a magnitude, then the result is that magnitude, since these are
below the limit. -/
theorem ofRatio_eq_of_nearestUnits {m : Magnitude} {num den : Nat} (h : nearestUnits num den = m.units)
    (negative : Bool) : ofRatio negative num den = finite negative m := by
  rw [ofRatio, dif_pos (h ▸ m.units_lt)]
  exact congrArg (finite negative) (Magnitude.ext_units h)

/-! ### Seventeen digits -/

/-- From one on, the leading digit says between which powers of ten a number is. -/
theorem exists_topExponent_eq {m : Magnitude} (h : unitsPerOne ≤ m.units) :
    ∃ t : Nat, topExponent m.units = t ∧ t ≤ 308 ∧ 10 ^ t * unitsPerOne ≤ m.units ∧
      m.units < 10 ^ (t + 1) * unitsPerOne := by
  have hone : 0 < m.units / unitsPerOne := Nat.div_pos h unitsPerOne_pos
  obtain ⟨t, ht⟩ : ∃ t, digitCount (m.units / unitsPerOne) = t + 1 :=
    Nat.exists_eq_add_of_le' (digitCount_pos _)
  refine ⟨t, ?_, ?_, ?_, ?_⟩
  · rw [topExponent, if_pos h, ht]
    omega
  · have hlimit : m.units / unitsPerOne < 10 ^ 309 := by
      refine Nat.div_lt_of_lt_mul (Nat.lt_of_lt_of_le m.units_lt ?_)
      unfold Magnitude.limit unitsPerOne
      decide +kernel
    have := (digitCount_le_iff (by decide) _).2 hlimit
    omega
  · refine (Nat.le_div_iff_mul_le unitsPerOne_pos).1 ?_
    rcases Nat.eq_zero_or_pos t with rfl | hpos
    · exact hone
    · refine Nat.not_lt.1 fun hlt => ?_
      have := (digitCount_le_iff hpos _).2 hlt
      omega
  · refine (Nat.div_lt_iff_lt_mul unitsPerOne_pos).1 ?_
    exact (digitCount_le_iff (Nat.succ_pos t) _).1 (Nat.le_of_eq ht)

/-- On the grid of its seventeenth digit a number is between `10 ^ 16` and `10 ^ 17`. -/
theorem scaled_bounds {units t : Nat} (hleast : 10 ^ t * unitsPerOne ≤ units)
    (hbeyond : units < 10 ^ (t + 1) * unitsPerOne) :
    10 ^ (16 : Nat) * (scaled units (t - 16)).2 ≤ (scaled units (t - 16)).1 ∧
      (scaled units (t - 16)).1 < 10 ^ (17 : Nat) * (scaled units (t - 16)).2 := by
  unfold scaled
  split
  · rename_i he
    obtain ⟨n, rfl⟩ : ∃ n, t = n + 16 := Nat.exists_eq_add_of_le' (by omega)
    have hden (i : Nat) : 10 ^ i * (unitsPerOne * 10 ^ (((n + 16 : Nat) : Int) - 16).toNat) =
        10 ^ (n + i) * unitsPerOne := by
      rw [show (((n + 16 : Nat) : Int) - 16).toNat = n by omega, Nat.pow_add, Nat.mul_comm unitsPerOne,
        ← Nat.mul_assoc, Nat.mul_comm (10 ^ i)]
    dsimp only
    rw [hden 16, hden 17]
    exact ⟨hleast, hbeyond⟩
  · rename_i he
    obtain ⟨n, hn⟩ : ∃ n, 16 = t + n := Nat.exists_eq_add_of_le (by omega)
    have hnum (i : Nat) : 10 ^ (t + i) * unitsPerOne * 10 ^ n = 10 ^ (16 + i) * unitsPerOne := by
      rw [hn, Nat.mul_right_comm, ← Nat.pow_add, Nat.add_right_comm]
    dsimp only
    rw [show (-((t : Int) - 16)).toNat = n by omega]
    constructor
    · rw [← hnum 0]
      exact Nat.mul_le_mul_right _ hleast
    · rw [← hnum 1]
      exact Nat.mul_lt_mul_of_pos_right hbeyond (Nat.pow_pos (by decide))

/-- The decimal with seventeen digits that is nearest to a number from one on reads back. -/
theorem toBinary64_nearestEven {m : Magnitude} {t : Nat} (hone : unitsPerOne ≤ m.units) (ht : t ≤ 308)
    (hleast : 10 ^ t * unitsPerOne ≤ m.units) (hbeyond : m.units < 10 ^ (t + 1) * unitsPerOne) :
    Decimal.toBinary64 ⟨false, nearestEven (scaled m.units (t - 16)).1 (scaled m.units (t - 16)).2, t - 16⟩ =
      finite false m := by
  have hm : 2 ^ 53 ≤ m.units := by
    refine Nat.le_trans ?_ hone
    unfold unitsPerOne
    decide +kernel
  have hbounds := scaled_bounds hleast hbeyond
  have hden : 0 < (scaled m.units (t - 16)).2 := by
    refine Nat.pos_of_ne_zero fun hzero => ?_
    rw [hzero] at hbounds
    omega
  have hnear := nearestEven_near (scaled m.units (t - 16)).1 hden
  have hdigits : 10 ^ 16 ≤ nearestEven (scaled m.units (t - 16)).1 (scaled m.units (t - 16)).2 :=
    Nat.le_trans ((Nat.le_div_iff_mul_le hden).2 hbounds.1) (div_le_nearestEven _ _)
  have hcount : digitCount (nearestEven (scaled m.units (t - 16)).1 (scaled m.units (t - 16)).2) ≤ 18 := by
    have hle := nearestEven_le (scaled m.units (t - 16)).1 (scaled m.units (t - 16)).2
    have hlt := (Nat.div_lt_iff_lt_mul hden).2 hbounds.2
    exact (digitCount_le_iff (by decide) _).2 (by omega)
  have hpos := digitCount_pos (nearestEven (scaled m.units (t - 16)).1 (scaled m.units (t - 16)).2)
  rw [Decimal.toBinary64, Decimal.top, if_neg (by simp only; omega), if_neg (by simp only; omega)]
  dsimp only
  -- The seventeenth digit counts less than the `2 ^ 53`th part.
  split
  · rename_i he
    simp only [scaled, if_pos he] at hbounds hnear ⊢
    generalize nearestEven m.units (unitsPerOne * 10 ^ ((t : Int) - 16).toNat) = c at hnear ⊢
    rw [show c * 10 ^ ((t : Int) - 16).toNat * unitsPerOne = c * (unitsPerOne * 10 ^ ((t : Int) - 16).toNat) by
      rw [Nat.mul_assoc, Nat.mul_comm unitsPerOne]]
    refine ofRatio_eq_of_nearestUnits (nearestUnits_eq_of_near (by decide) hm ?_ ?_) false
    · omega
    · omega
  · rename_i he
    simp only [scaled, if_neg he] at hbounds hnear ⊢
    generalize nearestEven (m.units * 10 ^ (-((t : Int) - 16)).toNat) unitsPerOne = c at hnear ⊢
    refine ofRatio_eq_of_nearestUnits
      (nearestUnits_eq_of_near (Nat.pow_pos (by decide)) hm ?_ ?_) false
    · omega
    · omega

/-- **Seventeen digits are enough** from one on. Decimals of so many digits are closer together than the numbers
of the format, so one of them is rounded to any given number. -/
theorem isSome_onGrid?_seventeen {m : Magnitude} (h : unitsPerOne ≤ m.units) :
    (onGrid? m (topExponent m.units - 16)).isSome := by
  obtain ⟨t, ht, ht', hleast, hbeyond⟩ := exists_topExponent_eq h
  have hread := toBinary64_nearestEven h ht' hleast hbeyond
  rw [ht, onGrid?, List.find?_isSome]
  refine ⟨_, ?_, decide_eq_true hread⟩
  generalize scaled m.units (t - 16) = q
  obtain ⟨num, den⟩ := q
  dsimp only
  have hle := nearestEven_le num den
  have hge := div_le_nearestEven num den
  split
  · rename_i heq
    rw [heq]
    exact List.mem_cons_self
  · rename_i hne
    rw [show nearestEven num den = num / den + 1 by omega]
    exact List.mem_cons_self

/-! ### The grid of the search -/

/-- A decimal found on a grid has the exponent of that grid, before noughts at the end are taken off. -/
theorem exponent_of_onGrid? {m : Magnitude} {e : Int} {d : Decimal} (h : onGrid? m e = some d) :
    d.exponent = e := by
  have hmem := List.mem_of_find?_eq_some h
  split at hmem
  · rcases hmem with _ | ⟨_, _ | ⟨_, ⟨⟩⟩⟩ <;> rfl
  · rcases hmem with _ | ⟨_, _ | ⟨_, ⟨⟩⟩⟩ <;> rfl

/-- Taking noughts off the end raises the exponent, if anything. -/
theorem exponent_le_strip (d : Decimal) : d.exponent ≤ d.strip.exponent := by
  fun_induction Decimal.strip d with
  | case1 d h ih => exact Int.le_trans (Int.le_of_lt (Int.lt_add_one_of_le (Int.le_refl _))) ih
  | case2 => exact Int.le_refl _

/-- The search goes from coarse grids to fine ones, so it stops no later than at a grid with a decimal that
reads back. -/
theorem exponent_shortestMagnitude_of_onGrid? {m : Magnitude} {e : Int} (hne : m.units ≠ 0)
    (hgrid : (onGrid? m e).isSome) (hle : e ≤ topExponent m.units) (hge : topExponent m.units - 16 ≤ e) :
    e ≤ (shortestMagnitude m).exponent := by
  rw [shortestMagnitude, if_neg hne]
  refine Int.le_trans ?_ (exponent_le_strip _)
  have hmem : e ∈ (List.range 17).map fun (n : Nat) => topExponent m.units - n :=
    List.mem_map.2 ⟨(topExponent m.units - e).toNat, List.mem_range.2 (by omega), by omega⟩
  have hdown : ((List.range 17).map fun (n : Nat) => topExponent m.units - n).Pairwise (· > ·) := by
    refine List.pairwise_map.2 (List.pairwise_lt_range.imp fun hlt => ?_)
    omega
  generalize ((List.range 17).map fun (n : Nat) => topExponent m.units - n) = grids at hmem hdown
  obtain ⟨d, hd⟩ := Option.isSome_iff_exists.1 (List.findSome?_isSome_iff.2 ⟨e, hmem, hgrid⟩)
  obtain ⟨coarser, found, finer, rfl, hfound, hcoarser⟩ := List.findSome?_eq_some_iff.1 hd
  rw [hd, Option.getD_some, exponent_of_onGrid? hfound]
  rcases List.mem_append.1 hmem with hmem | hmem
  · rw [hcoarser e hmem] at hgrid
    cases hgrid
  rcases List.mem_cons.1 hmem with rfl | hmem
  · exact Int.le_refl _
  · have := (List.pairwise_cons.1 (List.pairwise_append.1 hdown).2.1).1 e hmem
    omega

/-! ### Decimals of two places -/

/-- A power of ten is one of five times one of two, by which units are written in decimal. -/
theorem five_pow_mul_two_pow (k : Nat) : 5 ^ k * 2 ^ k = 10 ^ k :=
  (Nat.mul_pow 5 2 k).symm

/-- A magnitude in `1074` places and in fewer. -/
theorem mul_five_pow_mul_unitsPerOne {p : Nat} (hp : p ≤ 1074) (units : Nat) :
    units * 5 ^ (1074 : Nat) * unitsPerOne = units * 10 ^ p * 10 ^ (1074 - p) := by
  rw [unitsPerOne_eq, Nat.mul_assoc, five_pow_mul_two_pow 1074, Nat.mul_assoc, ← Nat.pow_add,
    Nat.add_sub_cancel' hp]

/-- Decimals of up to 1074 places can all be written with 1074, which brings two of them to one exponent. -/
theorem toBinary64_places {p : Nat} (hp : p ≤ 1074) (q : Nat) :
    Decimal.toBinary64 ⟨false, q, -p⟩ = Decimal.toBinary64 ⟨false, q * 10 ^ (1074 - p), -1074⟩ := by
  rw [← Decimal.toBinary64_mul_ten_pow false q (1074 - p), show -(p : Int) - (1074 - p : Nat) = -1074 by omega]

/-- A decimal that is not above a number is not read as more. -/
theorem toBinary64_le_finite {m : Magnitude} {q p : Nat} (hne : m.units ≠ 0) (hp : p ≤ 1074)
    (h : q * unitsPerOne ≤ m.units * 10 ^ p) : (Decimal.toBinary64 ⟨false, q, -p⟩).le (finite false m) := by
  rw [toBinary64_places hp, ← toBinary64_everyDigit hne, everyDigit_eq]
  refine Decimal.toBinary64_le (Nat.le_of_mul_le_mul_right ?_ unitsPerOne_pos) _
  rw [mul_five_pow_mul_unitsPerOne hp, Nat.mul_right_comm]
  exact Nat.mul_le_mul_right _ h

/-- A decimal that is not below a number is not read as less. -/
theorem finite_le_toBinary64 {m : Magnitude} {q p : Nat} (hne : m.units ≠ 0) (hp : p ≤ 1074)
    (h : m.units * 10 ^ p ≤ q * unitsPerOne) : (finite false m).le (Decimal.toBinary64 ⟨false, q, -p⟩) := by
  rw [toBinary64_places hp, ← toBinary64_everyDigit hne, everyDigit_eq]
  refine Decimal.toBinary64_le (Nat.le_of_mul_le_mul_right ?_ unitsPerOne_pos) _
  rw [mul_five_pow_mul_unitsPerOne hp, Nat.mul_right_comm q]
  exact Nat.mul_le_mul_right _ h

/-- What is at most a finite number is finite, and its magnitude has no more units. -/
theorem exists_toBinary64_eq_of_le {q : Nat} {e : Int} {m : Magnitude}
    (h : (Decimal.toBinary64 ⟨false, q, e⟩).le (finite false m)) :
    ∃ n, Decimal.toBinary64 ⟨false, q, e⟩ = finite false n ∧ n.units ≤ m.units := by
  have hzero : (finite false .zero).le (Decimal.toBinary64 ⟨false, q, e⟩) :=
    Decimal.toBinary64_le (Nat.zero_le q) e
  cases hread : Decimal.toBinary64 ⟨false, q, e⟩ with
  | finite s n =>
    obtain rfl : s = false := Decimal.negative_of_toBinary64 hread
    rw [hread, finite_le_finite] at h
    exact ⟨n, rfl, h⟩
  | infinite s =>
    have hlt := m.units_lt
    rw [hread] at h hzero
    cases s with
    | false =>
      have := (le_iff rfl rfl).1 h
      omega
    | true =>
      have := (le_iff rfl rfl).1 hzero
      simp only [Magnitude.zero] at this
      omega
  | nan =>
    rw [hread] at h
    cases h

/-- A decimal that is rounded to something both at most and at least a magnitude is rounded to it. -/
theorem toBinary64_eq_of_le_of_le {q : Nat} {e : Int} {m : Magnitude}
    (hle : (Decimal.toBinary64 ⟨false, q, e⟩).le (finite false m))
    (hge : (finite false m).le (Decimal.toBinary64 ⟨false, q, e⟩)) :
    Decimal.toBinary64 ⟨false, q, e⟩ = finite false m := by
  obtain ⟨n, hn, hunits⟩ := exists_toBinary64_eq_of_le hle
  rw [hn, finite_le_finite] at hge
  rw [hn, Magnitude.ext_units (Nat.le_antisymm hunits hge)]

/-- If a decimal of a grid reads as a number, so does a neighbour of the number on that grid. -/
theorem isSome_onGrid?_of_toBinary64 {m : Magnitude} {k p : Nat} (hne : m.units ≠ 0) (hp : p ≤ 1074)
    (h : Decimal.toBinary64 ⟨false, k, -p⟩ = finite false m) : (onGrid? m (-p)).isSome := by
  have hscaled : scaled m.units (-p) = (m.units * 10 ^ p, unitsPerOne) := by
    unfold scaled
    split
    · obtain rfl : p = 0 := by omega
      simp
    · rw [Int.neg_neg, Int.toNat_natCast]
  rw [onGrid?, hscaled, List.find?_isSome]
  have hneighbour : ∃ q, (q = m.units * 10 ^ p / unitsPerOne ∨ q = m.units * 10 ^ p / unitsPerOne + 1) ∧
      Decimal.toBinary64 ⟨false, q, -p⟩ = finite false m := by
    rcases Nat.lt_or_ge (m.units * 10 ^ p / unitsPerOne) k with hlt | hge
    · refine ⟨_, .inr rfl, toBinary64_eq_of_le_of_le ?_ ?_⟩
      · rw [← h]
        exact Decimal.toBinary64_le hlt _
      · refine finite_le_toBinary64 hne hp (Nat.le_of_lt ?_)
        exact (Nat.div_lt_iff_lt_mul unitsPerOne_pos).1 (Nat.lt_succ_self _)
    · refine ⟨_, .inl rfl, toBinary64_eq_of_le_of_le ?_ ?_⟩
      · exact toBinary64_le_finite hne hp (Nat.div_mul_le_self _ _)
      · rw [← h]
        exact Decimal.toBinary64_le hge _
  obtain ⟨q, hq, hread⟩ := hneighbour
  refine ⟨⟨false, q, -p⟩, ?_, decide_eq_true hread⟩
  rcases hq with rfl | rfl
  · split <;> simp
  · split <;> simp

end Binary64

/-- The binary64 next to `0.01`. -/
def Magnitude.cent : Magnitude where
  units := 5764607523034235 * 2 ^ (1015 : Nat)
  units_lt := by
    unfold limit
    decide +kernel
  spacing_dvd := by decide +kernel

namespace Binary64

/-- The smallest price above zero, one cent, as near as binary64 comes to it. -/
theorem toBinary64_cent : Decimal.toBinary64 ⟨false, 1, -2⟩ = finite false .cent := by
  decide +kernel

/-- The binary64 of one cent is not below a hundredth of one: it is rounded up. -/
theorem unitsPerOne_le_cent : unitsPerOne ≤ Magnitude.cent.units * 100 := by
  unfold unitsPerOne
  decide +kernel

/-- What some number of cents reads as is at least `0.01`. -/
theorem unitsPerOne_le_of_toBinary64 {m : Magnitude} {k : Nat} (hne : m.units ≠ 0)
    (h : Decimal.toBinary64 ⟨false, k, -2⟩ = finite false m) : unitsPerOne ≤ m.units * 100 := by
  have hk : 1 ≤ k := by
    refine Nat.pos_of_ne_zero fun hzero => hne ?_
    subst hzero
    exact congrArg Magnitude.units (finite.inj h).2.symm
  have hle := Decimal.toBinary64_le hk (-2)
  rw [toBinary64_cent, h, finite_le_finite] at hle
  exact Nat.le_trans unitsPerOne_le_cent (Nat.mul_le_mul_right _ hle)

/-- From one cent on, scaling by a power of ten leaves a number of at least two digits less than that power has.
-/
theorem ten_pow_le_scaled {units k n : Nat} (h : unitsPerOne ≤ units * 100) (hn : k + 2 = n) :
    10 ^ k ≤ units * 10 ^ n / unitsPerOne := by
  refine (Nat.le_div_iff_mul_le unitsPerOne_pos).2 ?_
  calc 10 ^ k * unitsPerOne ≤ 10 ^ k * (units * 100) := Nat.mul_le_mul_left _ h
    _ = units * (10 ^ k * 10 ^ 2) := Nat.mul_left_comm _ _ _
    _ = units * 10 ^ n := by rw [← Nat.pow_add, hn]

/-- Below one, scaling by a power of ten gives less than that power. -/
theorem scaled_lt_ten_pow {units : Nat} (h : units < unitsPerOne) (k : Nat) :
    units * 10 ^ k / unitsPerOne < 10 ^ k :=
  Nat.div_lt_of_lt_mul (Nat.mul_lt_mul_of_pos_right h (Nat.pow_pos (by decide)))

/-- From one cent on, the first digit of a number is at the second place behind the point or before. -/
theorem topExponent_ge {units : Nat} (h : unitsPerOne ≤ units * 100) : -2 ≤ topExponent units := by
  unfold topExponent
  split
  · have := digitCount_pos (units / unitsPerOne)
    omega
  · have hcount : ¬ digitCount (units * 10 ^ (324 : Nat) / unitsPerOne) ≤ 322 := by
      rw [digitCount_le_iff (by decide)]
      exact Nat.not_lt.2 (ten_pow_le_scaled (k := 322) (n := 324) h rfl)
    omega

/-- Below one, the first digit of a number is behind the point. -/
theorem topExponent_lt_zero {units : Nat} (h : units < unitsPerOne) : topExponent units < 0 := by
  rw [topExponent, if_neg (Nat.not_le.2 h)]
  have hcount := (digitCount_le_iff (k := 324) (by decide) _).2 (scaled_lt_ten_pow h 324)
  omega

/-- **What some number of cents reads as has a shortest decimal of at most two places.** Two places are tried
before three, and the number of cents is one way to succeed with two. -/
theorem exponent_shortestMagnitude_ge {m : Magnitude} {k : Nat}
    (h : Decimal.toBinary64 ⟨false, k, -2⟩ = finite false m) : -2 ≤ (shortestMagnitude m).exponent := by
  by_cases hne : m.units = 0
  · rw [shortestMagnitude, if_pos hne]
    decide
  have htop := topExponent_ge (unitsPerOne_le_of_toBinary64 hne h)
  rcases Int.lt_or_le 14 (topExponent m.units) with hlarge | hsmall
  · have hone : unitsPerOne ≤ m.units := by
      refine Nat.not_lt.1 fun hlt => ?_
      have := topExponent_lt_zero hlt
      omega
    exact Int.le_trans (by omega) (exponent_shortestMagnitude_of_onGrid? hne (isSome_onGrid?_seventeen hone)
      (by omega) (Int.le_refl _))
  · exact exponent_shortestMagnitude_of_onGrid? hne (isSome_onGrid?_of_toBinary64 (p := 2) hne (by decide) h)
      htop (by omega)

end Binary64
end Tariff
