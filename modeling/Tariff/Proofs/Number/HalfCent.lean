/-
# What is rounded to nothing

An amount is rounded to zero just if it is less than half a cent in size (`Binary64.isZero_iff_of_roundMoney`): its
shortest decimal is then less than half a unit of the second place, and half a unit is rounded up. Half a cent
is no number of the format, but the number next to it has `0.005` for its shortest decimal and is rounded as that.

Rounding refuses infinities and gives none, so what is rounded is finite unless it is `nan`.
-/

import Tariff.Proofs.Number.Money
import Tariff.Proofs.Number.Sums

namespace Tariff

attribute [local instance (high)] instPowNat

namespace Decimal

/-- Less than half a unit of the last place is nothing. -/
theorem inPlaces_eq_zero_of_lt {places : Int} {n : Nat} {e : Int}
    (h : (toBinary64 ⟨false, n, e⟩).lt (toBinary64 ⟨false, 5, -places - 1⟩)) : inPlaces places n e = 0 := by
  -- Both in as many places as either needs.
  obtain ⟨i, hi⟩ : ∃ i : Nat, e - i = min e (-places - 1) := ⟨(e - min e (-places - 1)).toNat, by omega⟩
  obtain ⟨j, hj⟩ : ∃ j : Nat, -places - 1 - j = min e (-places - 1) :=
    ⟨(-places - 1 - min e (-places - 1)).toNat, by omega⟩
  rw [← toBinary64_mul_ten_pow false n i, ← toBinary64_mul_ten_pow false 5 j, hi, ← hj] at h
  have hless : n * 10 ^ i < 5 * 10 ^ j := by
    refine Nat.lt_of_not_le fun hle => ?_
    have hback := Binary64.lt_of_lt_of_le h (toBinary64_le hle _)
    obtain ⟨a, b, ha, hb, hab⟩ := Binary64.lt_iff_exists.1 hback
    obtain rfl := Option.some.inj (ha.symm.trans hb)
    omega
  have hpower : 10 ^ (j + 1) = 2 * (5 * 10 ^ j) := by rw [Nat.pow_succ]; omega
  rw [← inPlaces_mul_ten_pow places n i, hi, ← hj, inPlaces, if_neg (by omega),
    show (-(-places - 1 - (j : Int) + places)).toNat = j + 1 by omega, nearestUp]
  exact Nat.div_eq_of_lt (by omega)

/-- A decimal that is not read as an infinity is read as a magnitude with its sign. -/
theorem exists_magnitude_of_isFinite {d : Decimal} (h : d.toBinary64.isFinite) :
    ∃ m, d.toBinary64 = .finite d.negative m := by
  cases hread : d.toBinary64 with
  | finite s m => exact ⟨m, by rw [negative_of_toBinary64 hread]⟩
  | infinite s => simp [hread, Binary64.isFinite] at h
  | nan => simp [hread, Binary64.isFinite] at h

end Decimal

namespace Binary64

/-- The number next to half a cent. -/
def halfCent : Binary64 := Decimal.toBinary64 ⟨false, 5, -3⟩

/-- Half a cent is rounded up to one: its shortest decimal is `0.005`, a tie, though the binary64 itself may lie
a little off it. -/
theorem roundMoney_halfCent : halfCent.roundMoney = some (Decimal.toBinary64 ⟨false, 1, -2⟩) := by
  decide +kernel

/-- **An amount is rounded to zero just if it is less than half a cent in size.** The sign of the amount goes to
the zero; at half a cent, a tie, rounding goes away from zero. -/
theorem isZero_iff_of_roundMoney {x y : Binary64} (h : x.roundMoney = some y) :
    y.isZero ↔ x.abs.lt halfCent := by
  rcases x with ⟨s, m⟩ | s | _
  · obtain ⟨r, rfl, hr⟩ := exists_finite_of_roundMoney h
    obtain ⟨half, hhalf⟩ : ∃ half, halfCent = finite false half :=
      Decimal.exists_magnitude_of_isFinite (by decide +kernel)
    rw [abs, hhalf, finite_lt_finite, isZero_finite_iff]
    refine ⟨fun hzero => Nat.lt_of_not_le fun hle => ?_, fun hlt => ?_⟩
    · obtain ⟨cent, hcent⟩ : ∃ cent, Decimal.toBinary64 ⟨false, 1, -2⟩ = finite false cent :=
        Decimal.exists_magnitude_of_isFinite (by decide +kernel)
      have hone := roundMoney_halfCent
      rw [hhalf, hcent] at hone
      have hsmall := units_le_of_roundMoney hle hone hr
      have hpos : (zero).lt (Decimal.toBinary64 ⟨false, 1, -2⟩) := by decide +kernel
      rw [hcent, zero, finite_lt_finite] at hpos
      omega
    · obtain ⟨n, exponent, hd⟩ := exists_shortestMagnitude m
      obtain ⟨r', hr', hread⟩ := exists_magnitude_of_roundMoney hd hr
      obtain ⟨-, rfl⟩ := finite.inj hr'
      have hless : (Decimal.toBinary64 ⟨false, n, exponent⟩).lt (Decimal.toBinary64 ⟨false, 5, -2 - 1⟩) := by
        rw [← hd, toBinary64_shortestMagnitude, show (-2 - 1 : Int) = -3 from rfl, ← halfCent, hhalf]
        exact finite_lt_finite.2 hlt
      have hnone : Decimal.inPlaces 2 n exponent = 0 := Decimal.inPlaces_eq_zero_of_lt hless
      rw [hnone, Decimal.toBinary64, if_pos (.inl rfl)] at hread
      rw [← (finite.inj hread).2, Magnitude.zero]
  · cases h
  · obtain rfl := Option.some.inj h
    simp [isZero, eq, lt, abs, rank]

/-- What is rounded is finite unless it is `nan`. -/
theorem isFinite_of_roundMoney {x y : Binary64} (h : x.roundMoney = some y) : y.isFinite = !x.isNan := by
  cases x with
  | finite s m =>
    obtain ⟨r, rfl, -⟩ := exists_finite_of_roundMoney h
    rfl
  | infinite s => cases h
  | nan =>
    obtain rfl := Option.some.inj h
    rfl

end Binary64
end Tariff
