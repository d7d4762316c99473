/-
# Guards in front of partial operations

The operations of a machine are partial: it refuses a quotient by zero, a remainder by zero or of an infinity,
the whole part of what is not finite, and a whole number beyond the format (`Binary64.Machine`). With a guard in
front of each (`Binary64.Guarded`) none is ever refused, and the results are those of the total operations.

| operation | guard | result in front of the machine |
| --- | --- | --- |
| quotient | divisor zero | `nan` of zero and `nan`, else an infinity |
| remainder | divisor zero, dividend infinite, either `nan` | `nan` |
| remainder | divisor infinite | the dividend |
| `floor`, `ceil`, `round` | infinite or `nan` | the operand |
| `max`, `min` | one operand `nan` | `nan` |

A whole part is always a number of the format: a number of at least `2 ^ 53` is whole itself, and below that
every whole number is in the format. So the way back from a whole part is exact, and `round`, which compares
what is above the whole part with one half, compares the exact difference (`half_le_sub_iff`).
-/

import Tariff.Proofs.Number.Sums
import Tariff.Proofs.Outcome

namespace Tariff

attribute [local instance (high)] instPowNat

/-- Powers of two are magnitudes as far as the range of binary64 goes. -/
theorem Magnitude.two_pow_lt_limit {k : Nat} (h : k < 2098) : 2 ^ k < limit := by
  unfold limit
  exact Nat.pow_lt_pow_right (by decide) h

/-- One half. -/
def Magnitude.half : Magnitude where
  units := 2 ^ (1073 : Nat)
  units_lt := two_pow_lt_limit (by decide)
  spacing_dvd := by simpa using Binary64.spacing_dvd_mul (k := 1) 1073 (by decide)

theorem Magnitude.units_half : half.units = 2 ^ (1073 : Nat) := by rw [half]

namespace Binary64

/-! ### Whole numbers of the format -/

/-- A number of the format is whole, or it is below `2 ^ 53`. -/
theorem unitsPerOne_dvd_or_lt (m : Magnitude) :
    unitsPerOne ∣ m.units ∨ m.units < 2 ^ (53 : Nat) * unitsPerOne := by
  rw [unitsPerOne_eq]
  by_cases h : 1074 ≤ m.units.log2 - 52
  · exact .inl (Nat.dvd_trans (Nat.pow_dvd_pow 2 h) m.spacing_dvd)
  · right
    calc m.units < 2 ^ (m.units.log2 + 1) := Nat.lt_log2_self
      _ ≤ 2 ^ ((53 : Nat) + (1074 : Nat)) := Nat.pow_le_pow_right (by decide) (by omega)
      _ = 2 ^ (53 : Nat) * 2 ^ (1074 : Nat) := Nat.pow_add 2 53 1074

/-- Whole numbers up to `2 ^ 53` are in the format. -/
theorem exists_magnitude_of_le_two_pow {k : Nat} (h : k ≤ 2 ^ (53 : Nat)) :
    ∃ n : Magnitude, n.units = k * unitsPerOne := by
  rw [unitsPerOne_eq]
  have hlt : k * 2 ^ (1074 : Nat) < Magnitude.limit :=
    calc k * 2 ^ (1074 : Nat) ≤ 2 ^ (53 : Nat) * 2 ^ (1074 : Nat) := Nat.mul_le_mul_right _ h
      _ = 2 ^ ((53 : Nat) + (1074 : Nat)) := (Nat.pow_add 2 53 1074).symm
      _ < Magnitude.limit := Magnitude.two_pow_lt_limit (by decide)
  exact ⟨⟨_, hlt, spacing_dvd_mul 1074 h⟩, rfl⟩

/-- **A whole number less than one away from a number of the format is in the format.** Up to `2 ^ 53` every
whole number is; beyond, the numbers of the format are whole themselves, so there is no other one so near. -/
theorem exists_magnitude_of_near {s : Bool} {m : Magnitude} {w : Int}
    (h : (w * unitsPerOne - signedUnits s m).natAbs < unitsPerOne) :
    ∃ n : Magnitude, n.units = w.natAbs * unitsPerOne := by
  have hunits : (signedUnits s m).natAbs = m.units := by
    cases s <;> simp [signedUnits]
  have hw : (w * unitsPerOne).natAbs = w.natAbs * unitsPerOne := by
    rw [Int.natAbs_mul, Int.natAbs_natCast]
  rcases unitsPerOne_dvd_or_lt m with hdvd | hlt
  · -- Two multiples of one less than one apart are equal.
    have hdiff : (unitsPerOne : Int) ∣ w * unitsPerOne - signedUnits s m := by
      refine Int.dvd_sub (Int.dvd_mul_left _ _) ?_
      rwa [Int.ofNat_dvd_left, hunits]
    have hzero : w * unitsPerOne - signedUnits s m = 0 := by
      have := Nat.eq_zero_of_dvd_of_lt (Int.ofNat_dvd_left.1 hdiff) h
      omega
    exact ⟨m, by rw [← hw, ← hunits]; omega⟩
  · have hbound : w.natAbs * unitsPerOne < (2 ^ (53 : Nat) + 1) * unitsPerOne := by
      rw [← hw, Nat.add_mul]
      omega
    exact exists_magnitude_of_le_two_pow (Nat.le_of_lt_succ (Nat.lt_of_mul_lt_mul_right hbound))

/-- A whole number of the format is its own nearest. -/
theorem ofInt_eq_finite {w : Int} {n : Magnitude} (h : n.units = w.natAbs * unitsPerOne) :
    ofInt w = finite (w < 0) n := by
  rw [ofInt, ← h, ofRatio_units]

/-- A whole number as signed units: its sign goes with it. -/
theorem signedUnits_of_natAbs {w : Int} {n : Magnitude} (h : n.units = w.natAbs * unitsPerOne) :
    signedUnits (w < 0) n = w * unitsPerOne := by
  by_cases hneg : w < 0
  · simp only [signedUnits, hneg, decide_true, if_true, h, Int.natCast_mul]
    rw [show w = -(w.natAbs : Int) by omega, Int.neg_mul, Int.natAbs_neg, Int.natAbs_natCast]
  · simp only [signedUnits, hneg, decide_false, Bool.false_eq_true, if_false, h, Int.natCast_mul]
    rw [Int.natAbs_of_nonneg (by omega)]

/-! ### The operations of the machine -/

/-- Why the machine refuses an operation. -/
inductive Refusal where
  | zeroDivisor
  /-- The remainder of an infinity or by zero. -/
  | noRemainder
  /-- The whole part of an infinity or of `nan`. -/
  | noWholePart
  /-- A whole number beyond the format. -/
  | tooLarge
  /-- The largest or the least of no numbers. -/
  | noNumbers
  deriving DecidableEq, Repr

/-- The sign; `nan` counts as positive. -/
def isNegative : Binary64 → Bool
  | finite s _ => s
  | infinite s => s
  | nan => false

def isInfinite : Binary64 → Bool
  | infinite _ => true
  | _ => false

def half : Binary64 := one / ofNat 2

/-- The half that rounding adds is a binary64 of its own, with nothing rounded. -/
theorem half_eq : half = finite false .half := by decide +kernel

/-- Two halves make one. -/
theorem unitsPerOne_eq_half : unitsPerOne = Magnitude.half.units * 2 := by
  rw [unitsPerOne_eq, Magnitude.units_half]
  exact Nat.pow_succ 2 1073

namespace Machine

def divide (x y : Binary64) : Except Refusal Binary64 :=
  if y.isZero then .error .zeroDivisor else .ok (x / y)

def remainder (x y : Binary64) : Except Refusal Binary64 :=
  if !x.isNan && !y.isNan && (x.isInfinite || y.isZero) then .error .noRemainder else .ok (x % y)

def floor : Binary64 → Except Refusal Int
  | finite s m => .ok ((signedUnits s m).fdiv unitsPerOne)
  | _ => .error .noWholePart

def ceil : Binary64 → Except Refusal Int
  | finite s m => .ok (-(-signedUnits s m).fdiv unitsPerOne)
  | _ => .error .noWholePart

/-- From the whole numbers, which have no bound, to the format, which has one. -/
def ofWhole (z : Int) : Except Refusal Binary64 :=
  if (ofInt z).isFinite then .ok (ofInt z) else .error .tooLarge

/-- The first number of a list that no other one is better than. -/
def best (better : Binary64 → Binary64 → Bool) : List Binary64 → Except Refusal Binary64
  | [] => .error .noNumbers
  | x :: xs => .ok (xs.foldl (fun best v => if better v best then v else best) x)

end Machine

namespace Guarded

def divide (x y : Binary64) : Except Refusal Binary64 :=
  if y.isZero then
    if x.isZero || x.isNan then .ok nan
    else .ok (infinite x.isNegative * (if y.isNegative then one.neg else one))
  else Machine.divide x y

def remainder (x y : Binary64) : Except Refusal Binary64 :=
  if y.isZero || x.isInfinite || x.isNan || y.isNan then .ok nan
  else if y.isInfinite then .ok x
  else Machine.remainder x y

def floor (x : Binary64) : Except Refusal Binary64 :=
  if x.isFinite then Machine.floor x >>= Machine.ofWhole else .ok x

def ceil (x : Binary64) : Except Refusal Binary64 :=
  if x.isFinite then Machine.ceil x >>= Machine.ofWhole else .ok x

/-- The whole part, or the next whole number from one half above it on. -/
def round (x : Binary64) : Except Refusal Binary64 :=
  if x.isFinite then do
    let whole ← Machine.floor x
    let below ← Machine.ofWhole whole
    Machine.ofWhole (if half.le (x - below) then whole + 1 else whole)
  else .ok x

def best (better : Binary64 → Binary64 → Bool) (xs : List Binary64) : Except Refusal Binary64 :=
  if xs.any isNan then .ok nan else Machine.best better xs

end Guarded

/-! ### Nothing is refused behind a guard -/

/-- A whole number less than one away from a finite number is not beyond the range, so turning it into a
binary64 is not refused. -/
theorem ofWhole_of_near {s : Bool} {m : Magnitude} {w : Int}
    (h : (w * unitsPerOne - signedUnits s m).natAbs < unitsPerOne) : Machine.ofWhole w = .ok (ofInt w) := by
  obtain ⟨n, hn⟩ := exists_magnitude_of_near h
  rw [Machine.ofWhole, ofInt_eq_finite hn]
  rfl

/-- The whole part of a number is less than one below it. -/
theorem fdiv_mul_le (u : Int) : u.fdiv unitsPerOne * unitsPerOne ≤ u ∧
    u < u.fdiv unitsPerOne * unitsPerOne + unitsPerOne := by
  have hpos : (0 : Int) < unitsPerOne := Int.natCast_pos.2 unitsPerOne_pos
  rw [Int.fdiv_eq_ediv_of_nonneg u (Int.le_of_lt hpos)]
  refine ⟨Int.ediv_mul_le u (Int.ne_of_gt hpos), ?_⟩
  have := Int.lt_ediv_add_one_mul_self u hpos
  rwa [Int.add_mul, Int.one_mul] at this

theorem isFinite_finite (s : Bool) (m : Magnitude) : (finite s m).isFinite = true := rfl

/-- Behind its guard against infinities and `nan`, rounding down is never refused, and does what the total
operation does. -/
theorem guarded_floor (x : Binary64) : Guarded.floor x = .ok x.floor := by
  cases x with
  | finite s m =>
    have hwhole := fdiv_mul_le (signedUnits s m)
    rw [Guarded.floor, if_pos (isFinite_finite s m), Machine.floor, ok_bind]
    exact ofWhole_of_near (s := s) (m := m) (by omega)
  | infinite s => rfl
  | nan => rfl

/-- Behind its guard, rounding up is never refused either. -/
theorem guarded_ceil (x : Binary64) : Guarded.ceil x = .ok x.ceil := by
  cases x with
  | finite s m =>
    have hwhole := fdiv_mul_le (-signedUnits s m)
    rw [Guarded.ceil, if_pos (isFinite_finite s m), Machine.ceil, ok_bind]
    refine ofWhole_of_near (s := s) (m := m) ?_
    rw [Int.neg_mul]
    omega
  | infinite s => rfl
  | nan => rfl

/-- The place of a sum that is not negative is the nearest to the exact sum. -/
theorem rank_add_finite {s t : Bool} {a b : Magnitude} {d : Nat}
    (h : signedUnits s a + signedUnits t b = d) : (finite s a + finite t b).rank =
      some ((min (nearestUnits d 1) Magnitude.limit : Nat) : Int) := by
  have hsum : finite s a + finite t b = if s = t then ofRatio s (a.units + b.units) 1
      else if a.units = b.units then zero
      else if b.units < a.units then ofRatio s (a.units - b.units) 1
      else ofRatio t (b.units - a.units) 1 := rfl
  have hzero : nearestUnits 0 1 = 0 := nearestUnits_units .zero
  rw [hsum]
  cases s <;> cases t <;> simp only [signedUnits, Bool.false_eq_true, if_false, if_true] at h ⊢
  · rw [show a.units + b.units = d by omega, rank_ofRatio]
  · by_cases heq : a.units = b.units
    · rw [if_pos heq, show d = 0 by omega, hzero, Nat.zero_min]
      rfl
    · rw [if_neg heq, if_pos (by omega), show a.units - b.units = d by omega, rank_ofRatio]
  · by_cases heq : a.units = b.units
    · rw [if_neg (by decide), if_pos heq, show d = 0 by omega, hzero, Nat.zero_min]
      rfl
    · rw [if_neg (by decide), if_neg heq, if_neg (by omega), show b.units - a.units = d by omega, rank_ofRatio]
  · rw [show d = 0 by omega, show a.units + b.units = Magnitude.zero.units from (by omega : _ = 0),
      ofRatio_units, hzero, Nat.zero_min]
    rfl

/-- What is above the whole part of a number is a number of the format if it is less than one half: it is no
larger than the number then, and a multiple of the spacing there. -/
theorem nearestUnits_fraction {s : Bool} {m : Magnitude} {w : Int} {d : Nat}
    (h : signedUnits s m - w * unitsPerOne = d) (hlt : d < Magnitude.half.units) : nearestUnits d 1 = d := by
  have hone := unitsPerOne_eq_half
  have hle : d ≤ m.units := by
    rcases Int.lt_or_le w 0 with hw | hw
    · have hbelow : w * unitsPerOne ≤ -1 * unitsPerOne :=
        Int.mul_le_mul_of_nonneg_right (by omega) (Int.natCast_nonneg _)
      cases s <;> simp only [signedUnits, Bool.false_eq_true, if_false, if_true] at h <;> omega
    · have habove : 0 ≤ w * unitsPerOne := Int.mul_nonneg hw (Int.natCast_nonneg _)
      cases s <;> simp only [signedUnits, Bool.false_eq_true, if_false, if_true] at h <;> omega
  have hunits : 2 ^ (d.log2 - 52) ∣ m.units :=
    Nat.dvd_trans (Nat.pow_dvd_pow 2 (Nat.sub_le_sub_right (log2_mono hle) 52)) m.spacing_dvd
  have hspacing : 2 ^ (d.log2 - 52) ∣ unitsPerOne := by
    have hlog := log2_mono (Nat.le_of_lt hlt)
    rw [Magnitude.units_half, Nat.log2_two_pow] at hlog
    rw [unitsPerOne_eq]
    exact Nat.pow_dvd_pow 2 (by omega)
  have hdvd : ((2 ^ (d.log2 - 52) : Nat) : Int) ∣ (d : Int) := by
    rw [← h]
    refine Int.dvd_sub ?_ (Int.dvd_mul_of_dvd_right (Int.ofNat_dvd.2 hspacing))
    cases s
    · exact Int.ofNat_dvd.2 hunits
    · exact Int.dvd_neg.2 (Int.ofNat_dvd.2 hunits)
  exact nearestUnits_units ⟨d, Nat.lt_trans hlt Magnitude.half.units_lt, Int.ofNat_dvd.1 hdvd⟩

/-- **Comparing the rounded difference from the whole part with one half compares the exact one.** One half is
in the format, and rounding keeps the order, so the comparison comes out the same. -/
theorem half_le_sub_iff {s : Bool} {m n : Magnitude} {w : Int} (hn : n.units = w.natAbs * unitsPerOne)
    {d : Nat} (h : signedUnits s m - w * unitsPerOne = d) :
    half.le (finite s m - finite (w < 0) n) ↔ unitsPerOne ≤ 2 * d := by
  have hone := unitsPerOne_eq_half
  have hsub : finite s m - finite (w < 0) n = finite s m + finite (!decide (w < 0)) n := rfl
  have hsum : signedUnits s m + signedUnits (!decide (w < 0)) n = d := by
    have hneg : signedUnits (!decide (w < 0)) n = -signedUnits (w < 0) n := by
      cases decide (w < 0) <;> simp [signedUnits]
    rw [hneg, signedUnits_of_natAbs hn, ← h, Int.sub_eq_add_neg]
  rw [half_eq, hsub, le_iff rfl (rank_add_finite hsum), Int.ofNat_le]
  by_cases hlt : d < Magnitude.half.units
  · rw [nearestUnits_fraction h hlt]
    omega
  · have hmono : nearestUnits Magnitude.half.units 1 ≤ nearestUnits d 1 :=
      nearestUnits_mono (Nat.not_lt.1 hlt) Nat.one_pos
    have hlimit := Magnitude.half.units_lt
    rw [nearestUnits_units] at hmono
    omega

/-- The nearest whole number, halves upwards, from the whole part. -/
theorem fdiv_round {u w : Int} {d : Nat} (h : u - w * unitsPerOne = d) (hlt : d < unitsPerOne) :
    (2 * u + unitsPerOne).fdiv (2 * unitsPerOne) = if unitsPerOne ≤ 2 * d then w + 1 else w := by
  have hpos := unitsPerOne_pos
  generalize unitsPerOne = U at *
  have hu : 2 * u + U = 2 * d + U + 2 * U * w := by
    rw [show u = d + w * U by omega, Int.mul_add, Int.mul_comm w, Int.mul_assoc]
    omega
  rw [Int.fdiv_eq_ediv_of_nonneg _ (by omega), hu, Int.add_mul_ediv_left _ _ (by omega)]
  by_cases hhalf : U ≤ 2 * d
  · rw [if_pos hhalf, show (2 * d + U : Int) = (2 * d - U) + 2 * U * 1 by omega,
      Int.add_mul_ediv_left _ _ (by omega), Int.ediv_eq_zero_of_lt (by omega) (by omega)]
    omega
  · rw [if_neg hhalf, Int.ediv_eq_zero_of_lt (by omega) (by omega), Int.zero_add]

/-- Behind its guard, rounding to the nearest is never refused: adding a half first does not lead beyond the
range. -/
theorem guarded_round (x : Binary64) : Guarded.round x = .ok x.round := by
  cases x with
  | finite s m =>
    obtain ⟨hle, hlt⟩ := fdiv_mul_le (signedUnits s m)
    generalize hw : (signedUnits s m).fdiv unitsPerOne = w at hle hlt
    have hnear : (w * unitsPerOne - signedUnits s m).natAbs < unitsPerOne := by omega
    obtain ⟨n, hn⟩ := exists_magnitude_of_near hnear
    obtain ⟨d, hd⟩ := Int.eq_ofNat_of_zero_le (show 0 ≤ signedUnits s m - w * unitsPerOne by omega)
    have hhalf := half_le_sub_iff hn hd
    have hround : (finite s m).round = ofInt (if unitsPerOne ≤ 2 * d then w + 1 else w) := by
      rw [round, toWhole, fdiv_round hd (by omega)]
    rw [Guarded.round, if_pos (isFinite_finite s m), Machine.floor, ok_bind, hw, ofWhole_of_near hnear, ok_bind,
      ofInt_eq_finite hn, hround]
    by_cases h : unitsPerOne ≤ 2 * d
    · rw [if_pos h, if_pos (hhalf.2 h)]
      refine ofWhole_of_near (s := s) (m := m) ?_
      rw [Int.add_mul, Int.one_mul]
      omega
    · rw [if_neg h, if_neg (mt hhalf.1 h)]
      exact ofWhole_of_near hnear
  | infinite s => rfl
  | nan => rfl

/-- An infinity times one or minus one is an infinity, whose sign is that of both together. -/
theorem infinite_mul_one (s t : Bool) :
    infinite s * (if t then one.neg else one) = infinite (s ^^ t) := by
  cases s <;> cases t <;> decide +kernel

/-- Dividing by a zero gives `nan` for a zero, and else an infinity with the sign of both together. -/
theorem finite_div_zero (s t : Bool) (a : Magnitude) :
    finite s a / finite t .zero = if a.units = 0 then nan else infinite (s ^^ t) := by
  have hdiv (b : Magnitude) : finite s a / finite t b =
      if b.units = 0 then if a.units = 0 then nan else infinite (s ^^ t)
      else ofRatio (s ^^ t) (a.units * unitsPerOne) b.units := rfl
  rw [hdiv, if_pos (show Magnitude.zero.units = 0 from rfl)]

/-- **Division behind its guards is total**: where the machine would refuse a zero divisor, the guard answers
with the infinity or the `nan` of the total operation. -/
theorem guarded_divide (x y : Binary64) : Guarded.divide x y = .ok (x / y) := by
  by_cases hy : y.isZero
  · obtain ⟨t, rfl⟩ := eq_zero_of_isZero hy
    rw [Guarded.divide, if_pos hy]
    cases x with
    | finite s a =>
      have hnan : (finite s a).isNan = false := rfl
      rw [finite_div_zero, hnan, Bool.or_false]
      by_cases ha : a.units = 0
      · rw [if_pos (isZero_finite_iff.2 ha), if_pos ha]
      · rw [if_neg (mt isZero_finite_iff.1 ha), if_neg ha]
        exact congrArg _ (infinite_mul_one s t)
    | infinite s =>
      have hnan : (infinite s).isNan = false := rfl
      rw [isZero_infinite, hnan, if_neg (by decide)]
      exact congrArg _ (infinite_mul_one s t)
    | nan => rfl
  · rw [Guarded.divide, if_neg hy, Machine.divide, if_neg hy]

/-- **The remainder behind its guards is total**: a zero divisor and an infinite dividend are caught before the
machine sees them. -/
theorem guarded_remainder (x y : Binary64) : Guarded.remainder x y = .ok (x % y) := by
  cases x with
  | finite s a =>
    cases y with
    | finite t b =>
      have hrem : finite s a % finite t b = if b.units = 0 then nan else ofRatio s (a.units % b.units) 1 := rfl
      by_cases hb : b.units = 0
      · simp [Guarded.remainder, isZero_finite_iff.2 hb, hrem, hb]
      · have hzero : (finite t b).isZero = false := Bool.eq_false_iff.2 (mt isZero_finite_iff.1 hb)
        simp [Guarded.remainder, Machine.remainder, hzero, isInfinite, isNan]
    | infinite t =>
      have hrem : finite s a % infinite t = finite s a := rfl
      simp [Guarded.remainder, isZero_infinite, isInfinite, isNan, hrem]
    | nan =>
      have hrem : finite s a % nan = nan := rfl
      simp [Guarded.remainder, isNan, hrem]
  | infinite s =>
    have hrem : infinite s % y = nan := by cases y <;> rfl
    simp [Guarded.remainder, isInfinite, hrem]
  | nan =>
    have hrem : nan % y = nan := by cases y <;> rfl
    simp [Guarded.remainder, isNan, hrem]

/-- The first of the best, `nan` if there is one. -/
theorem guarded_best (better : Binary64 → Binary64 → Bool) (x : Binary64) (xs : List Binary64) :
    Guarded.best better (x :: xs) = .ok (if (x :: xs).any isNan then nan
      else xs.foldl (fun best v => if better v best then v else best) x) := by
  rw [Guarded.best, Machine.best, apply_ite Except.ok]

end Binary64
end Tariff
