import TournamentScoring.Decimal.Reading
import TournamentScoring.Proofs.Binary64.Arithmetic

/-!
# Decimals are read with one rounding

The float that is read for a decimal is the nearest one to the number it spells,
with infinity above the range.  The shortcuts for short numbers, for huge ones and
for tiny ones all agree with this.
-/

namespace TournamentScoring.Decimal

open Float.Model Float.Model.UnpackedFloat
open TournamentScoring.Binary64

/-! ## Out of range -/

theorem ten_zpow_pos (exponent : ℤ) : (0 : ℚ) < 10 ^ exponent :=
  zpow_pos (by norm_num) exponent

theorem two_pow_le_ten_pow : 2 ^ 1024 ≤ 10 ^ 309 := by
  decide +kernel

theorem two_pow_lt_ten_pow : 2 ^ 1075 < 10 ^ 325 := by
  decide +kernel

theorem rangeBound_le_ten_zpow : rangeBound ≤ (10 : ℚ) ^ (309 : ℤ) := by
  have hpower : (10 : ℚ) ^ (309 : ℤ) = 10 ^ 309 := zpow_natCast 10 309
  rw [rangeBound, hpower]
  exact_mod_cast two_pow_le_ten_pow

theorem ten_zpow_lt_two_zpow : (10 : ℚ) ^ (-325 : ℤ) < 2 ^ (-1075 : ℤ) := by
  have hten : (10 : ℚ) ^ (325 : ℤ) = 10 ^ 325 := zpow_natCast 10 325
  have htwo : (2 : ℚ) ^ (1075 : ℤ) = 2 ^ 1075 := zpow_natCast 2 1075
  rw [zpow_neg, zpow_neg, inv_lt_inv₀ (ten_zpow_pos _) (two_zpow_pos _), hten, htwo]
  exact_mod_cast two_pow_lt_ten_pow

theorem rounds_infinity {x : ℚ} (hx : (10 : ℚ) ^ (309 : ℤ) ≤ x) :
    Rounds x (.infinity .positive) := by
  have hpos : 0 < x := (ten_zpow_pos _).trans_le hx
  have hover : ¬|x| < overflowBound := by
    rw [abs_of_pos hpos]
    linarith [overflowBound_lt_rangeBound, rangeBound_le_ten_zpow]
  rw [Rounds, if_neg hover, if_neg hpos.not_gt]

theorem two_zpow_sub_one (exponent : ℤ) :
    (2 : ℚ) ^ (exponent - 1) = 1 / 2 * 2 ^ exponent := by
  rw [zpow_sub_one₀ two_ne_zero, mul_comm, one_div]

/-- Below half of the least positive float, zero is the nearest one. -/
theorem rounds_zero_of_lt {x : ℚ} (hpos : 0 < x) (hten : x < 10 ^ (-325 : ℤ)) :
    Rounds x (.zero .positive) := by
  have hx : x < 2 ^ (-1075 : ℤ) := hten.trans ten_zpow_lt_two_zpow
  have hlog : Int.log 2 x < -1075 :=
    (Int.lt_zpow_iff_log_lt one_lt_two hpos).mp (by exact_mod_cast hx)
  have hplace : lastPlace x = -1074 := by
    rw [lastPlace, abs_of_pos hpos]
    omega
  have hhalf : x / 2 ^ (-1074 : ℤ) < 1 / 2 := by
    rw [div_lt_iff₀ (two_zpow_pos _)]
    have hsplit : (-1075 : ℤ) = -1074 - 1 := by norm_num
    rwa [hsplit, two_zpow_sub_one] at hx
  have hnonneg : 0 < x / 2 ^ (-1074 : ℤ) := div_pos hpos (two_zpow_pos _)
  have hrounded : nearestEven (x / 2 ^ (-1074 : ℤ)) = 0 := by
    generalize x / 2 ^ (-1074 : ℤ) = quotient at hhalf hnonneg
    apply le_antisymm
    · exact nearestEven_le_of_lt (by push_cast; linarith)
    · exact le_nearestEven_of_lt (by push_cast; linarith)
  have hone : (2 : ℚ) ^ (-1075 : ℤ) ≤ 2 ^ (0 : ℤ) :=
    zpow_le_zpow_right₀ one_le_two (by norm_num)
  have hrange : |x| < overflowBound := by
    have hbound := @natCast_lt_overflowBound 1 (by norm_num)
    rw [Nat.cast_one, abs_one] at hbound
    rw [abs_of_pos hpos]
    rw [zpow_zero] at hone
    linarith
  rw [Rounds, if_pos hrange, nearest, hplace, hrounded, Int.cast_zero, zero_mul]
  exact ⟨rfl, rfl⟩

theorem mul_ten_zpow_lt {digits count : ℕ} {exponent bound : ℤ}
    (hdigits : digits < 10 ^ count) (hbound : count + exponent ≤ bound) :
    (digits : ℚ) * 10 ^ exponent < 10 ^ bound := by
  have hcast : (digits : ℚ) < 10 ^ count := by exact_mod_cast hdigits
  calc (digits : ℚ) * 10 ^ exponent < 10 ^ count * 10 ^ exponent :=
        mul_lt_mul_of_pos_right hcast (ten_zpow_pos _)
    _ = 10 ^ (count + exponent) := by
        rw [zpow_add₀ (by norm_num), zpow_natCast]
    _ ≤ 10 ^ bound := zpow_le_zpow_right₀ (by norm_num) hbound

theorem lt_ten_pow_log2_succ (digits : ℕ) : digits < 10 ^ (digits.log2 + 1) :=
  Nat.lt_log2_self.trans_le (Nat.pow_le_pow_left (by norm_num) _)

/-! ## Conversions -/

theorem mul_pow_shiftLeft (digits power : ℕ) :
    ((digits <<< 53 * 10 ^ power : ℕ) : ℚ) * 2 ^ (-53 : ℤ) = digits * 10 ^ power := by
  rw [Nat.shiftLeft_eq]
  push_cast
  rw [zpow_neg, ← zpow_natCast]
  field_simp
  norm_num

theorem rounds_mul_pow {digits : ℕ} (hpos : 0 < digits) (power : ℕ) :
    Rounds (digits * 10 ^ power) (Float.Model.pack (roundWithAccuracy .binary64
      (.positive * .positive) (digits <<< 53 * 10 ^ power) (-53 + 0) .exact)).unpack := by
  have hcast : (1 : ℚ) ≤ digits := by exact_mod_cast hpos
  have hten : (1 : ℚ) ≤ 10 ^ power := one_le_pow₀ (by norm_num)
  have hnumber : (1 : ℚ) ≤ digits * 10 ^ power := one_le_mul_of_one_le_of_one_le hcast hten
  apply rounds_roundWithAccuracy (by linarith) _ _ .positive
  · rw [← mul_pow_shiftLeft, add_zero, mul_div_cancel_right₀ _ (two_zpow_pos _).ne']
    exact extends_exact _
  · have hplace : (0 : ℤ) - 52 ≤ lastPlace (digits * 10 ^ power) := by
      apply le_lastPlace
      rw [zpow_zero, abs_of_pos (by linarith)]
      exact hnumber
    omega

theorem rounds_div_pow {digits : ℕ} (hpos : 0 < digits) (power : ℕ) :
    Rounds (digits / 10 ^ power) (Float.Model.pack (UnpackedFloat.div .binary64
      (.finite .positive digits 0 hpos)
      (.finite .positive (10 ^ power) 0 (Nat.pow_pos (Nat.succ_pos 9))))).unpack := by
  have hdiv := @rounds_div_assemble .positive .positive digits (10 ^ power) 0 0
    (by positivity)
  rw [assemble_of_pos hpos, assemble_of_pos (by positivity), zpow_zero, mul_one, mul_one] at hdiv
  exact_mod_cast hdiv

/-- The model's conversion is one rounding of the exact number. -/
theorem rounds_ofScientific_model {digits : ℕ} (hpos : 0 < digits) (exponent : ℤ) :
    Rounds (digits * 10 ^ exponent)
      (Float.Model.ofScientific digits exponent).unpack := by
  have hcast : (1 : ℚ) ≤ digits := by exact_mod_cast hpos
  have hbits : (2 : ℤ) ^ Format.binary64.exponentBits = 2048 := rfl
  rw [Float.Model.ofScientific, UnpackedFloat.ofScientific, dif_neg hpos.ne', hbits]
  split
  case isTrue hhuge =>
    rw [unpack_pack (.infinity _)]
    apply rounds_infinity
    calc (10 : ℚ) ^ (309 : ℤ) ≤ 10 ^ exponent :=
          zpow_le_zpow_right₀ (by norm_num) (by omega)
      _ ≤ digits * 10 ^ exponent := le_mul_of_one_le_left (ten_zpow_pos _).le hcast
  case isFalse =>
  split
  case isTrue htiny =>
    rw [unpack_pack (unpacked_zero _)]
    exact rounds_zero_of_lt (mul_pos (by linarith) (ten_zpow_pos _))
      (mul_ten_zpow_lt (lt_ten_pow_log2_succ digits) (by push_cast; omega))
  case isFalse =>
  split
  case isTrue hnonneg =>
    obtain ⟨power, rfl⟩ := Int.eq_ofNat_of_zero_le hnonneg
    have hmul := rounds_mul_pow hpos power
    rw [zpow_natCast]
    exact hmul
  case isFalse hneg =>
    obtain ⟨power, hpower⟩ := Int.eq_ofNat_of_zero_le (by omega : 0 ≤ -exponent)
    obtain rfl : exponent = -(power : ℤ) := by omega
    have hdiv := rounds_div_pow hpos power
    rw [zpow_neg, zpow_natCast, ← div_eq_mul_inv]
    simpa using hdiv

/-- Short numbers are converted with one operation on exact floats. -/
theorem rounds_ofScientific_mul {digits : ℕ} (hpos : 0 < digits) (power : ℕ) :
    Rounds (digits * 10 ^ power)
      (Float.ofScientific digits false power).toModel.unpack := by
  rw [Float.ofScientific]
  split
  case isTrue hshort =>
    obtain ⟨hfinite, hvalue⟩ := isFinite_and_value_toFloat hshort.1
    obtain ⟨hpower, hvaluePower⟩ := isFinite_and_value_of_standsFor
      (standsFor_powerOfTen ⟨power, Nat.lt_succ_of_le hshort.2⟩)
    have hmul := rounds_mul hfinite hpower
    rw [hvalue, hvaluePower] at hmul
    exact_mod_cast hmul
  case isFalse =>
    have hmodel := rounds_ofScientific_model hpos power
    rw [zpow_natCast] at hmodel
    exact hmodel

theorem rounds_ofScientific_div {digits : ℕ} (hpos : 0 < digits) (power : ℕ) :
    Rounds (digits / 10 ^ power)
      (Float.ofScientific digits true power).toModel.unpack := by
  rw [Float.ofScientific]
  split
  case isTrue hshort =>
    obtain ⟨hfinite, hvalue⟩ := isFinite_and_value_toFloat hshort.1
    obtain ⟨hpower, hvaluePower⟩ := isFinite_and_value_of_standsFor
      (standsFor_powerOfTen ⟨power, Nat.lt_succ_of_le hshort.2⟩)
    have hne : ((10 ^ power : ℕ) : ℚ) ≠ 0 := by positivity
    have hdiv := rounds_div hfinite hpower (by rw [hvaluePower]; exact hne)
    rw [hvalue, hvaluePower] at hdiv
    exact_mod_cast hdiv
  case isFalse =>
    have hexponent : Int.negOfNat power = -(power : ℤ) := Int.negOfNat_eq
    have hmodel := rounds_ofScientific_model hpos (-power)
    rw [zpow_neg, zpow_natCast, ← div_eq_mul_inv, ← hexponent] at hmodel
    exact hmodel

/-! ## Decimals -/

theorem digitCount_pos (digits : ℕ) : 0 < digitCount digits := by
  rw [digitCount]
  split <;> omega

theorem lt_ten_pow_digitCount (digits : ℕ) : digits < 10 ^ digitCount digits := by
  induction digits using digitCount.induct with
  | case1 digits hless =>
    rw [digitCount, if_pos hless, pow_one]
    exact hless
  | case2 digits hmore ih =>
    rw [digitCount, if_neg hmore, pow_succ]
    omega

theorem ten_pow_digitCount_le {digits : ℕ} (hpos : 0 < digits) :
    10 ^ (digitCount digits - 1) ≤ digits := by
  induction digits using digitCount.induct with
  | case1 digits hless =>
    rw [digitCount, if_pos hless]
    exact hpos
  | case2 digits hmore ih =>
    have hquotient := ih (by omega)
    have hcount := digitCount_pos (digits / 10)
    rw [digitCount, if_neg hmore, Nat.add_sub_cancel,
      ← Nat.sub_one_add_one hcount.ne', pow_succ]
    omega

namespace Scientific

/-- The number that a decimal spells. -/
def value (decimal : Scientific) : ℚ :=
  decimal.digits * 10 ^ decimal.exponent

theorem ten_zpow_leading_le {decimal : Scientific} (hpos : 0 < decimal.digits) :
    (10 : ℚ) ^ decimal.leading ≤ decimal.value := by
  have hcount := digitCount_pos decimal.digits
  have hdigits : (10 : ℚ) ^ (digitCount decimal.digits - 1) ≤ decimal.digits := by
    exact_mod_cast ten_pow_digitCount_le hpos
  have hleading : decimal.leading =
      ((digitCount decimal.digits - 1 : ℕ) : ℤ) + decimal.exponent := by
    rw [leading]
    omega
  rw [hleading, value, zpow_add₀ (by norm_num), zpow_natCast]
  exact mul_le_mul_of_nonneg_right hdigits (ten_zpow_pos _).le

/-- Reading a decimal rounds once. -/
theorem rounds_toFloat {decimal : Scientific} (hpos : 0 < decimal.digits) :
    Rounds decimal.value decimal.toFloat.toModel.unpack := by
  rw [toFloat, if_neg hpos.ne']
  split
  case isTrue hhuge =>
    have hinfinity : infinity.toModel.unpack = .infinity .positive := rfl
    rw [hinfinity]
    apply rounds_infinity
    exact (zpow_le_zpow_right₀ (by norm_num) (by omega)).trans (ten_zpow_leading_le hpos)
  case isFalse =>
  split
  case isTrue htiny =>
    have hzero : (0.0 : Float).toModel.unpack = .zero .positive := rfl
    have hcast : (0 : ℚ) < decimal.digits := by exact_mod_cast hpos
    rw [hzero]
    rw [leading] at htiny
    exact rounds_zero_of_lt (mul_pos hcast (ten_zpow_pos _))
      (mul_ten_zpow_lt (lt_ten_pow_digitCount _) (by omega))
  case isFalse =>
  -- Between the two clamps the sign of the exponent chooses the conversion.
  obtain ⟨digits, exponent⟩ := decimal
  simp only [value]
  split
  case isTrue hnonneg =>
    obtain ⟨power, rfl⟩ := Int.eq_ofNat_of_zero_le hnonneg
    rw [zpow_natCast]
    exact rounds_ofScientific_mul hpos power
  case isFalse hneg =>
    obtain ⟨power, hpower⟩ := Int.eq_ofNat_of_zero_le (by omega : 0 ≤ -exponent)
    obtain rfl : exponent = -(power : ℤ) := by omega
    rw [zpow_neg, zpow_natCast, ← div_eq_mul_inv, neg_neg, Int.toNat_natCast]
    exact rounds_ofScientific_div hpos power

end Scientific

/-- A row of digits is read as the number that it writes, rounded once. -/
theorem rounds_ofDigits (whole fraction : List Char) (exponent : Int) :
    Rounds (Scientific.value ⟨digitsValue (whole ++ fraction), exponent - fraction.length⟩)
      (ofDigits whole fraction exponent).toModel.unpack := by
  rw [ofDigits]
  rcases Nat.eq_zero_or_pos (digitsValue (whole ++ fraction)) with hzero | hpos
  · have hfloat : (0.0 : Float).toModel.unpack = .zero .positive := rfl
    rw [hzero, Scientific.value, Nat.cast_zero, zero_mul, Scientific.toFloat, if_pos rfl,
      hfloat]
    exact rounds_zero .positive
  · exact Scientific.rounds_toFloat hpos

end TournamentScoring.Decimal
