import TournamentScoring.Proofs.Binary64.Mantissa
import TournamentScoring.Proofs.Binary64.Packing

/-!
# Rounding in the float model

Shifting to the target exponent, rounding the mantissa and shifting once more
after a carry give the nearest number, with a canonical mantissa and exponent.
-/

namespace TournamentScoring.Binary64

open Float.Model Float.Model.UnpackedFloat

theorem targetExponent_eq (mantissa : ℕ) (exponent : ℤ) :
    Format.binary64.targetExponent (totalExponent mantissa exponent) =
      max (mantissa.log2 + exponent - 52) (-1074) := by
  have hbits : Format.binary64.mantissaBits = 53 := rfl
  have hleast : Format.binary64.minExponent = -1074 := rfl
  rw [Format.targetExponent, totalExponent, hbits, hleast]
  congr 1
  push_cast
  ring

theorem two_zpow_log2_le {mantissa : ℕ} (hpos : 0 < mantissa) (exponent : ℤ) :
    2 ^ (mantissa.log2 + exponent) ≤ (mantissa : ℚ) * 2 ^ exponent := by
  have hle : (2 : ℚ) ^ mantissa.log2 ≤ mantissa := by
    exact_mod_cast Nat.log2_self_le hpos.ne'
  rw [zpow_add₀ two_ne_zero, zpow_natCast]
  exact mul_two_zpow_le hle exponent

theorem succ_mul_le_two_zpow_log2 (mantissa : ℕ) (exponent : ℤ) :
    ((mantissa : ℚ) + 1) * 2 ^ exponent ≤ 2 ^ (mantissa.log2 + exponent + 1) := by
  have hle : (mantissa : ℚ) + 1 ≤ 2 ^ (mantissa.log2 + 1) := by
    exact_mod_cast (Nat.lt_log2_self : mantissa < 2 ^ (mantissa.log2 + 1))
  rw [add_right_comm, zpow_add₀ two_ne_zero, zpow_add_one₀ two_ne_zero,
    zpow_natCast, ← pow_succ]
  exact mul_two_zpow_le hle exponent

/-- The whole part of a scaled number tells its binary logarithm. -/
theorem log_eq {x : ℚ} {mantissa : ℕ} {exponent : ℤ} (hpos : 0 < mantissa)
    (hle : (mantissa : ℚ) ≤ x / 2 ^ exponent)
    (hlt : x / 2 ^ exponent < mantissa + 1) :
    Int.log 2 x = mantissa.log2 + exponent := by
  rw [le_div_iff₀ (two_zpow_pos _)] at hle
  rw [div_lt_iff₀ (two_zpow_pos _)] at hlt
  have hcast : (0 : ℚ) < mantissa := by exact_mod_cast hpos
  have hx : 0 < x := (mul_pos hcast (two_zpow_pos _)).trans_le hle
  apply le_antisymm
  · apply Int.lt_add_one_iff.mp
    apply (Int.lt_zpow_iff_log_lt one_lt_two hx).mp
    exact hlt.trans_le (succ_mul_le_two_zpow_log2 mantissa exponent)
  · apply (Int.zpow_le_iff_le_log one_lt_two hx).mp
    exact (two_zpow_log2_le hpos exponent).trans hle

/-- The model finds the last place of a number from its whole part, if digits
beyond the last place are there or the whole part is not zero. -/
theorem targetExponent_eq_lastPlace {x : ℚ} {mantissa : ℕ} {exponent : ℤ}
    (hx : 0 < x) (hle : (mantissa : ℚ) ≤ x / 2 ^ exponent)
    (hlt : x / 2 ^ exponent < mantissa + 1)
    (hexponent : exponent ≤ lastPlace x) :
    Format.binary64.targetExponent (totalExponent mantissa exponent) =
      lastPlace x := by
  rw [targetExponent_eq, lastPlace, abs_of_pos hx]
  rcases Nat.eq_zero_or_pos mantissa with rfl | hpos
  · have hsmall : Int.log 2 x < exponent := by
      apply (Int.lt_zpow_iff_log_lt one_lt_two hx).mp
      rw [Nat.cast_zero, zero_add, div_lt_one (two_zpow_pos _)] at hlt
      exact_mod_cast hlt
    have hlog : Nat.log2 0 = 0 := rfl
    rw [lastPlace, abs_of_pos hx] at hexponent
    rw [hlog]
    omega
  · rw [log_eq hpos hle hlt]

/-- A mantissa without a carry stays as it is. -/
theorem shiftToTargetExponent_of_lt {mantissa : ℕ} {exponent : ℤ}
    (hmantissa : mantissa < 2 ^ 53) (hexponent : -1074 ≤ exponent) :
    shiftToTargetExponent .binary64 mantissa exponent .exact =
      (⟨mantissa, false, false⟩, exponent) := by
  have hlog : mantissa.log2 ≤ 52 := by
    rcases Nat.eq_zero_or_pos mantissa with rfl | hpos
    · decide
    · exact Nat.lt_succ_iff.mp ((Nat.log2_lt hpos.ne').mpr hmantissa)
  have hshift : (max ((mantissa.log2 : ℤ) + exponent - 52) (-1074) -
      exponent).toNat = 0 := by
    omega
  rw [shiftToTargetExponent, targetExponent_eq, shiftToExponent, hshift]
  simp only [Nat.cast_zero, add_zero]
  rfl

/-- A carry to a mantissa of 54 digits loses nothing but a zero. -/
theorem shiftToTargetExponent_carry {exponent : ℤ} (hexponent : -1074 ≤ exponent) :
    shiftToTargetExponent .binary64 (2 ^ 53) exponent .exact =
      (⟨2 ^ 52, false, false⟩, exponent + 1) := by
  have hshift : (max (((2 ^ 53 : ℕ).log2 : ℤ) + exponent - 52) (-1074) -
      exponent).toNat = 1 := by
    rw [Nat.log2_two_pow]
    omega
  rw [shiftToTargetExponent, targetExponent_eq, shiftToExponent, hshift]
  rfl

theorem mantissa_ofMantissaAndAccuracy (mantissa : ℕ) (accuracy : Accuracy) :
    (ExtendedMantissa.ofMantissaAndAccuracy mantissa accuracy).mantissa =
      mantissa := by
  rcases accuracy with _ | _ | _ | _ <;> rfl

/-- The first shift goes to the last place. -/
theorem exists_shiftToTargetExponent {x : ℚ} {mantissa : ℕ} {exponent : ℤ}
    {accuracy : Accuracy} (hx : 0 < x)
    (hextends : Extends (.ofMantissaAndAccuracy mantissa accuracy)
      (x / 2 ^ exponent)) (hexponent : exponent ≤ lastPlace x) :
    ∃ extended, Extends extended (x / 2 ^ lastPlace x) ∧
      shiftToTargetExponent .binary64 mantissa exponent accuracy =
        (extended, lastPlace x) := by
  have hle := hextends.mantissa_le
  have hlt := hextends.lt_mantissa_add_one
  rw [mantissa_ofMantissaAndAccuracy] at hle hlt
  have hcount : exponent + ((lastPlace x - exponent).toNat : ℤ) = lastPlace x := by
    omega
  have hscale : x / 2 ^ exponent / 2 ^ (lastPlace x - exponent).toNat =
      x / 2 ^ lastPlace x := by
    rw [div_div, ← zpow_natCast, ← zpow_add₀ two_ne_zero, hcount]
  refine ⟨_, hscale ▸ hextends.shiftRight (lastPlace x - exponent).toNat, ?_⟩
  rw [shiftToTargetExponent, targetExponent_eq_lastPlace hx hle hlt hexponent,
    shiftToExponent, hcount]

/-- The model rounds a positive number to the nearest one. -/
theorem roundWithAccuracy_eq {x : ℚ} {mantissa : ℕ} {exponent : ℤ}
    {accuracy : Accuracy} (hx : 0 < x)
    (hextends : Extends (.ofMantissaAndAccuracy mantissa accuracy)
      (x / 2 ^ exponent)) (hexponent : exponent ≤ lastPlace x) (sign : Sign) :
    ∃ rounded place, Canonical rounded place ∧
      (rounded : ℚ) * 2 ^ place = nearest x ∧
      roundWithAccuracy .binary64 sign mantissa exponent accuracy =
        assemble sign rounded place := by
  obtain ⟨extended, hfirst, hshift⟩ :=
    exists_shiftToTargetExponent hx hextends hexponent
  have hleast : -1074 ≤ lastPlace x := le_max_right _ _
  have hrounded : (extended.roundedMantissa : ℤ) =
      nearestEven (x / 2 ^ lastPlace x) := hfirst.roundedMantissa_eq
  have hbound : extended.roundedMantissa ≤ 2 ^ 53 := by
    have hdigits := @div_lastPlace_lt x
    rw [abs_of_pos hx] at hdigits
    have hle : nearestEven (x / 2 ^ lastPlace x) ≤ 2 ^ 53 :=
      nearestEven_le_of_lt (by push_cast; linarith)
    omega
  have hvalue : (extended.roundedMantissa : ℚ) * 2 ^ lastPlace x = nearest x := by
    rw [nearest, ← hrounded, Int.cast_natCast]
  rw [roundWithAccuracy, hshift]
  rcases hbound.lt_or_eq with hlt | hcarry
  · refine ⟨extended.roundedMantissa, lastPlace x, ⟨hlt, hleast, ?_⟩, hvalue, ?_⟩
    · rcases hleast.eq_or_lt with heq | hplace
      · exact .inr heq.symm
      · have hdigits := le_div_lastPlace hx.ne' hplace
        rw [abs_of_pos hx] at hdigits
        have hle : 2 ^ 52 ≤ nearestEven (x / 2 ^ lastPlace x) :=
          le_nearestEven_of_lt (by push_cast; linarith)
        left
        omega
    · simp only [shiftToTargetExponent_of_lt hlt hleast]
      rfl
  · refine ⟨2 ^ 52, lastPlace x + 1, ⟨by norm_num, by omega, .inl le_rfl⟩, ?_, ?_⟩
    · rw [← hvalue, hcarry, zpow_add_one₀ two_ne_zero]
      push_cast
      ring
    · simp only [hcarry, shiftToTargetExponent_carry hleast]
      rfl

end TournamentScoring.Binary64
