import TournamentScoring.Proofs.Binary64.Rounding
import TournamentScoring.Proofs.Binary64.Value

/-!
# Arithmetic on floats

Products, quotients and conversions of finite floats are the exact results,
rounded once: to the nearest float in range, else to the infinity of that sign.
-/

namespace TournamentScoring.Binary64

open Float.Model Float.Model.UnpackedFloat

/-! ## One rounding -/

/-- The float that a number rounds to. -/
def Rounds (x : ℚ) (unpacked : UnpackedFloat) : Prop :=
  if |x| < overflowBound then
    unpacked.isFinite = true ∧ unpackedValue unpacked = nearest x
  else unpacked = .infinity (if x < 0 then .negative else .positive)

theorem rounds_zero (sign : Sign) : Rounds 0 (.zero sign) := by
  rw [Rounds, abs_zero, if_pos overflowBound_pos, nearest_zero]
  exact ⟨rfl, rfl⟩

theorem Rounds.isFinite_iff {x : ℚ} {unpacked : UnpackedFloat}
    (hrounds : Rounds x unpacked) :
    unpacked.isFinite = true ↔ |x| < overflowBound := by
  rw [Rounds] at hrounds
  by_cases hx : |x| < overflowBound
  · rw [if_pos hx] at hrounds
    exact iff_of_true hrounds.1 hx
  · rw [if_neg hx] at hrounds
    rw [hrounds]
    exact iff_of_false Bool.false_ne_true hx

theorem Rounds.exists_infinity {x : ℚ} {unpacked : UnpackedFloat}
    (hrounds : Rounds x unpacked) (hx : ¬|x| < overflowBound) :
    ∃ sign, unpacked = .infinity sign := by
  rw [Rounds, if_neg hx] at hrounds
  exact ⟨_, hrounds⟩

theorem Rounds.unpackedValue_eq {x : ℚ} {unpacked : UnpackedFloat}
    (hrounds : Rounds x unpacked) (hx : |x| < overflowBound)
    (hexact : nearest x = x) : unpackedValue unpacked = x := by
  rw [Rounds, if_pos hx] at hrounds
  rw [hrounds.2, hexact]

theorem rounds_pack {x : ℚ} (hx : 0 < x) (sign : Sign) {mantissa : ℕ}
    {exponent : ℤ} (hcanonical : Canonical mantissa exponent)
    (hnearest : (mantissa : ℚ) * 2 ^ exponent = nearest x) :
    Rounds (signed sign x)
      (Float.Model.pack (assemble sign mantissa exponent)).unpack := by
  have hpacked : (Float.Model.pack (assemble sign mantissa exponent)).unpack =
      _ := unpack_pack_assemble sign hcanonical
  have hrange : exponent ≤ 971 ↔ |signed sign x| < overflowBound := by
    have hnonneg : 0 ≤ nearest x := by
      rw [← hnearest]
      exact mul_nonneg (Nat.cast_nonneg mantissa) (two_zpow_pos _).le
    rw [hcanonical.exponent_le_iff, hnearest, abs_signed, ← abs_nearest_lt_iff,
      abs_of_nonneg hnonneg]
  rw [Rounds, hpacked]
  by_cases hexponent : exponent ≤ 971
  · rw [if_pos (hrange.mp hexponent), if_pos hexponent, unpackedValue_assemble,
      hnearest, nearest_signed]
    exact ⟨isFinite_assemble sign mantissa exponent, rfl⟩
  · rw [if_neg (mt hrange.mpr hexponent), if_neg hexponent]
    cases sign with
    | negative => rw [if_pos (show signed .negative x < 0 from neg_lt_zero.mpr hx)]
    | positive => rw [if_neg (show ¬signed .positive x < 0 from hx.not_gt)]

/-- Whatever the model rounds with the right accuracy is rounded once. -/
theorem rounds_roundWithAccuracy {x : ℚ} {mantissa : ℕ} {exponent : ℤ}
    {accuracy : Accuracy} (hx : 0 < x)
    (hextends : Extends (.ofMantissaAndAccuracy mantissa accuracy)
      (x / 2 ^ exponent)) (hexponent : exponent ≤ lastPlace x) (sign : Sign) :
    Rounds (signed sign x) (Float.Model.pack
      (roundWithAccuracy .binary64 sign mantissa exponent accuracy)).unpack := by
  obtain ⟨rounded, place, hcanonical, hnearest, hresult⟩ :=
    roundWithAccuracy_eq hx hextends hexponent sign
  rw [hresult]
  exact rounds_pack hx sign hcanonical hnearest

/-! ## Products -/

theorem unpack_mul (x y : Float) :
    (x * y).toModel.unpack = (Float.Model.pack (UnpackedFloat.mul .binary64
      x.toModel.unpack y.toModel.unpack)).unpack := rfl

/-- The exact product of two floats ends at or below its last place. -/
theorem add_le_lastPlace {mantissa mantissa' : ℕ} {exponent exponent' : ℤ}
    (hcanonical : Canonical mantissa exponent)
    (hcanonical' : Canonical mantissa' exponent') (hpos : 0 < mantissa)
    (hpos' : 0 < mantissa') :
    exponent + exponent' ≤
      lastPlace ((mantissa * mantissa' : ℕ) * 2 ^ (exponent + exponent')) := by
  by_cases hnormal : 2 ^ 52 ≤ mantissa * mantissa'
  · have hdigits : (2 : ℚ) ^ 52 ≤ (mantissa * mantissa' : ℕ) := by
      exact_mod_cast hnormal
    have hle : (2 : ℚ) ^ (52 + (exponent + exponent')) ≤
        |((mantissa * mantissa' : ℕ) : ℚ) * 2 ^ (exponent + exponent')| := by
      rw [zpow_add₀ two_ne_zero, abs_of_nonneg
        (mul_nonneg (Nat.cast_nonneg _) (two_zpow_pos _).le)]
      exact mul_two_zpow_le hdigits _
    have hplace := le_lastPlace hle
    omega
  · -- Both are below all normal numbers, so the product is far below them.
    have hleft : exponent = -1074 := hcanonical.normal.resolve_left fun hle =>
      hnormal (hle.trans (Nat.le_mul_of_pos_right _ hpos'))
    have hright : exponent' = -1074 := hcanonical'.normal.resolve_left fun hle =>
      hnormal (hle.trans (Nat.le_mul_of_pos_left _ hpos))
    have hleast : -1074 ≤ lastPlace ((mantissa * mantissa' : ℕ) *
      2 ^ (exponent + exponent')) := le_max_right _ _
    omega

theorem rounds_mul_assemble (left right : Sign) {mantissa mantissa' : ℕ}
    {exponent exponent' : ℤ} (hcanonical : Canonical mantissa exponent)
    (hcanonical' : Canonical mantissa' exponent') :
    Rounds (signed left (mantissa * 2 ^ exponent) *
        signed right (mantissa' * 2 ^ exponent'))
      (Float.Model.pack (UnpackedFloat.mul .binary64
        (assemble left mantissa exponent)
        (assemble right mantissa' exponent'))).unpack := by
  rcases Nat.eq_zero_or_pos mantissa with rfl | hpos
  · have hmul : UnpackedFloat.mul .binary64 (assemble left 0 exponent)
        (assemble right mantissa' exponent') = .zero (left * right) := by
      rcases Nat.eq_zero_or_pos mantissa' with rfl | hpos'
      · rfl
      · rw [assemble_of_pos hpos']
        rfl
    rw [hmul, Nat.cast_zero, zero_mul, signed_zero, zero_mul,
      unpack_pack (unpacked_zero _)]
    exact rounds_zero _
  rcases Nat.eq_zero_or_pos mantissa' with rfl | hpos'
  · have hmul : UnpackedFloat.mul .binary64 (assemble left mantissa exponent)
        (assemble right 0 exponent') = .zero (left * right) := by
      rw [assemble_of_pos hpos]
      rfl
    rw [hmul, Nat.cast_zero, zero_mul, signed_zero, mul_zero,
      unpack_pack (unpacked_zero _)]
    exact rounds_zero _
  have hexact : (mantissa : ℚ) * 2 ^ exponent * (mantissa' * 2 ^ exponent') =
      (mantissa * mantissa' : ℕ) * 2 ^ (exponent + exponent') := by
    rw [zpow_add₀ two_ne_zero]
    push_cast
    ring
  have hproduct : (1 : ℚ) ≤ (mantissa * mantissa' : ℕ) := by
    exact_mod_cast Nat.mul_pos hpos hpos'
  rw [signed_mul, hexact, assemble_of_pos hpos, assemble_of_pos hpos']
  apply rounds_roundWithAccuracy
  · exact mul_pos (by linarith) (two_zpow_pos _)
  · rw [mul_div_cancel_right₀ _ (two_zpow_pos _).ne']
    exact extends_exact _
  · exact add_le_lastPlace hcanonical hcanonical' hpos hpos'

/-- A product of finite floats is rounded once. -/
theorem rounds_mul {x y : Float} (hx : x.isFinite = true)
    (hy : y.isFinite = true) :
    Rounds (value x * value y) (x * y).toModel.unpack := by
  obtain ⟨left, mantissa, exponent, hcanonical, -, hleft, hvalue⟩ :=
    exists_unpack_eq hx
  obtain ⟨right, mantissa', exponent', hcanonical', -, hright, hvalue'⟩ :=
    exists_unpack_eq hy
  rw [unpack_mul, hleft, hright, hvalue, hvalue']
  exact rounds_mul_assemble left right hcanonical hcanonical'

/-! ## Quotients -/

theorem unpack_div (x y : Float) :
    (x / y).toModel.unpack = (Float.Model.pack (UnpackedFloat.div .binary64
      x.toModel.unpack y.toModel.unpack)).unpack := rfl

/-- The model cuts a quotient off at or below its last place. -/
theorem targetExponent_sub_le_lastPlace {mantissa mantissa' : ℕ}
    (hpos : 0 < mantissa) (hpos' : 0 < mantissa') (exponent exponent' : ℤ) :
    Format.binary64.targetExponent (totalExponent mantissa exponent -
        totalExponent mantissa' exponent') ≤
      lastPlace (mantissa * 2 ^ exponent / (mantissa' * 2 ^ exponent')) := by
  have hdividend : 0 < (mantissa : ℚ) * 2 ^ exponent :=
    mul_pos (by exact_mod_cast hpos) (two_zpow_pos _)
  have hdivisor : 0 < (mantissa' : ℚ) * 2 ^ exponent' :=
    mul_pos (by exact_mod_cast hpos') (two_zpow_pos _)
  have hbound : (mantissa' : ℚ) * 2 ^ exponent' ≤
      2 ^ (mantissa'.log2 + exponent' + 1) :=
    calc (mantissa' : ℚ) * 2 ^ exponent' ≤ (mantissa' + 1) * 2 ^ exponent' :=
          mul_two_zpow_le (by linarith) exponent'
      _ ≤ 2 ^ (mantissa'.log2 + exponent' + 1) :=
          succ_mul_le_two_zpow_log2 mantissa' exponent'
  have hle : (2 : ℚ) ^ (mantissa.log2 + exponent -
      (mantissa'.log2 + exponent' + 1)) ≤
      |(mantissa : ℚ) * 2 ^ exponent / (mantissa' * 2 ^ exponent')| := by
    rw [abs_of_pos (div_pos hdividend hdivisor), zpow_sub₀ two_ne_zero]
    exact div_le_div₀ hdividend.le (two_zpow_log2_le hpos exponent) hdivisor
      hbound
  have hplace := le_lastPlace hle
  have hleast : -1074 ≤ lastPlace ((mantissa : ℚ) * 2 ^ exponent /
    (mantissa' * 2 ^ exponent')) := le_max_right _ _
  have hbits : Format.binary64.mantissaBits = 53 := rfl
  have hminimum : Format.binary64.minExponent = -1074 := rfl
  rw [Format.targetExponent, totalExponent, totalExponent, hbits, hminimum]
  omega

/-- Moving the place of the dividend does not change the quotient. -/
theorem div_eq_mul_two_zpow (mantissa : ℕ) {mantissa' : ℕ} (hpos' : 0 < mantissa')
    {exponent exponent' place : ℤ} {count : ℕ}
    (hcount : (count : ℤ) + place = exponent - exponent') :
    (mantissa : ℚ) * 2 ^ exponent / (mantissa' * 2 ^ exponent') =
      (mantissa * 2 ^ count : ℕ) / mantissa' * 2 ^ place := by
  have hcast' : (0 : ℚ) < mantissa' := by exact_mod_cast hpos'
  have hsplit : (2 : ℚ) ^ exponent = 2 ^ count * 2 ^ place * 2 ^ exponent' := by
    rw [← zpow_natCast, ← zpow_add₀ two_ne_zero, ← zpow_add₀ two_ne_zero, hcount,
      sub_add_cancel]
  rw [div_eq_iff (mul_pos hcast' (two_zpow_pos _)).ne', div_mul_eq_mul_div,
    div_mul_eq_mul_div, eq_div_iff hcast'.ne', hsplit]
  push_cast
  ring

theorem rounds_div_assemble (left right : Sign) {mantissa mantissa' : ℕ}
    (exponent exponent' : ℤ) (hpos' : 0 < mantissa') :
    Rounds (signed left (mantissa * 2 ^ exponent) /
        signed right (mantissa' * 2 ^ exponent'))
      (Float.Model.pack (UnpackedFloat.div .binary64
        (assemble left mantissa exponent)
        (assemble right mantissa' exponent'))).unpack := by
  rcases Nat.eq_zero_or_pos mantissa with rfl | hpos
  · have hdiv : UnpackedFloat.div .binary64 (assemble left 0 exponent)
        (assemble right mantissa' exponent') = .zero (left / right) := by
      rw [assemble_of_pos hpos']
      rfl
    rw [hdiv, Nat.cast_zero, zero_mul, signed_zero, zero_div,
      unpack_pack (unpacked_zero _)]
    exact rounds_zero _
  -- The place where the model cuts the quotient off.
  obtain ⟨place, hplace⟩ : ∃ place, min (exponent - exponent')
      (Format.binary64.targetExponent (totalExponent mantissa exponent -
        totalExponent mantissa' exponent')) = place := ⟨_, rfl⟩
  obtain ⟨count, hshift⟩ : ∃ count, (exponent - exponent' - place).toNat = count :=
    ⟨_, rfl⟩
  have hcount : (count : ℤ) + place = exponent - exponent' := by
    omega
  have hdiv : UnpackedFloat.div .binary64 (assemble left mantissa exponent)
      (assemble right mantissa' exponent') =
        roundWithAccuracy .binary64 (left / right)
          (mantissa * 2 ^ count / mantissa') place
          (accuracyOfFraction (mantissa * 2 ^ count % mantissa') mantissa') := by
    rw [assemble_of_pos hpos, assemble_of_pos hpos', UnpackedFloat.div]
    simp only [divCore, hplace, hshift, Nat.shiftLeft_eq]
  have htarget := targetExponent_sub_le_lastPlace hpos hpos' exponent exponent'
  rw [signed_div, hdiv]
  apply rounds_roundWithAccuracy
  · exact div_pos (mul_pos (by exact_mod_cast hpos) (two_zpow_pos _))
      (mul_pos (by exact_mod_cast hpos') (two_zpow_pos _))
  · rw [div_eq_mul_two_zpow mantissa hpos' hcount,
      mul_div_cancel_right₀ _ (two_zpow_pos _).ne']
    exact extends_div _ hpos'
  · omega

/-- A quotient of finite floats is rounded once. -/
theorem rounds_div {x y : Float} (hx : x.isFinite = true)
    (hy : y.isFinite = true) (hne : value y ≠ 0) :
    Rounds (value x / value y) (x / y).toModel.unpack := by
  obtain ⟨left, mantissa, exponent, -, -, hleft, hvalue⟩ := exists_unpack_eq hx
  obtain ⟨right, mantissa', exponent', -, -, hright, hvalue'⟩ :=
    exists_unpack_eq hy
  have hpos' : 0 < mantissa' := by
    apply Nat.pos_of_ne_zero
    rintro rfl
    rw [hvalue', Nat.cast_zero, zero_mul, signed_zero] at hne
    exact hne rfl
  rw [unpack_div, hleft, hright, hvalue, hvalue']
  exact rounds_div_assemble left right exponent exponent' hpos'

/-- A quotient of an infinity by a finite float is infinite. -/
theorem exists_div_eq_infinity {x y : Float} {sign : Sign}
    (hx : x.toModel.unpack = .infinity sign) (hy : y.isFinite = true) :
    ∃ sign', (x / y).toModel.unpack = .infinity sign' := by
  obtain ⟨right, mantissa, exponent, -, -, hright, -⟩ := exists_unpack_eq hy
  have hinfinity : UnpackedFloat.div .binary64 (.infinity sign)
      (assemble right mantissa exponent) = .infinity (sign / right) := by
    rw [assemble]
    split <;> rfl
  rw [unpack_div, hx, hright, hinfinity, unpack_pack (.infinity _)]
  exact ⟨sign / right, rfl⟩

/-! ## Whole numbers -/

/-- The model rounds a number of any length after making it long enough. -/
theorem rounds_round {mantissa : ℕ} (hpos : 0 < mantissa) (exponent : ℤ)
    (sign : Sign) :
    Rounds (signed sign (mantissa * 2 ^ exponent)) (Float.Model.pack
      (UnpackedFloat.round .binary64 sign mantissa exponent)).unpack := by
  have hcast : (0 : ℚ) < mantissa := by exact_mod_cast hpos
  have hx : 0 < (mantissa : ℚ) * 2 ^ exponent := mul_pos hcast (two_zpow_pos _)
  have hscale : (mantissa : ℚ) * 2 ^ exponent / 2 ^ exponent = mantissa :=
    mul_div_cancel_right₀ _ (two_zpow_pos _).ne'
  have hlog : Int.log 2 ((mantissa : ℚ) * 2 ^ exponent) =
      mantissa.log2 + exponent :=
    log_eq hpos hscale.ge (hscale.le.trans_lt (lt_add_one _))
  have htarget : Format.binary64.targetExponent (totalExponent mantissa exponent) =
      lastPlace ((mantissa : ℚ) * 2 ^ exponent) := by
    rw [targetExponent_eq, lastPlace, abs_of_pos hx, hlog]
  obtain ⟨count, hcount⟩ : ∃ count, (exponent -
      lastPlace ((mantissa : ℚ) * 2 ^ exponent)).toNat = count := ⟨_, rfl⟩
  have hexact : (mantissa : ℚ) * 2 ^ exponent / 2 ^ (exponent - count) =
      (mantissa * 2 ^ count : ℕ) := by
    rw [div_eq_iff (two_zpow_pos _).ne', Nat.cast_mul, Nat.cast_pow,
      Nat.cast_two, mul_assoc, ← zpow_natCast, ← zpow_add₀ two_ne_zero,
      add_sub_cancel]
  rw [UnpackedFloat.round, htarget, decreaseExponent]
  simp only [hcount, Nat.shiftLeft_eq]
  apply rounds_roundWithAccuracy hx
  · rw [hexact]
    exact extends_exact _
  · omega

theorem rounds_normalize (mantissa : ℤ) (exponent : ℤ) (sign : Sign) :
    Rounds (mantissa * 2 ^ exponent) (Float.Model.pack
      (UnpackedFloat.normalize .binary64 mantissa exponent sign)).unpack := by
  rw [UnpackedFloat.normalize]
  rcases lt_trichotomy mantissa 0 with hneg | rfl | hpos
  · rw [Int.compare_eq_lt.mpr hneg]
    have hround := rounds_round (by omega : 0 < (-mantissa).toNat) exponent
      .negative
    have hcast : (((-mantissa).toNat : ℤ) : ℚ) = -mantissa := by
      rw [Int.toNat_of_nonneg (by omega), Int.cast_neg]
    rw [Int.cast_natCast] at hcast
    rwa [hcast, neg_mul, signed, neg_neg] at hround
  · rw [Int.cast_zero, zero_mul]
    change Rounds 0 (Float.Model.pack (.zero sign)).unpack
    rw [unpack_pack (unpacked_zero sign)]
    exact rounds_zero sign
  · rw [Int.compare_eq_gt.mpr hpos]
    have hround := rounds_round (by omega : 0 < mantissa.toNat) exponent
      .positive
    have hcast : ((mantissa.toNat : ℤ) : ℚ) = mantissa := by
      rw [Int.toNat_of_nonneg hpos.le]
    rw [Int.cast_natCast] at hcast
    rwa [hcast, signed] at hround

/-- Whole numbers of at most 53 digits are far from overflowing. -/
theorem natCast_lt_overflowBound {number : ℕ} (hnumber : number ≤ 2 ^ 53) :
    |(number : ℚ)| < overflowBound := by
  have hcast : (number : ℚ) ≤ 2 ^ 53 := by exact_mod_cast hnumber
  have htwo : (2 : ℚ) ≤ 2 ^ (971 : ℤ) :=
    calc (2 : ℚ) = 2 ^ (1 : ℤ) := (zpow_one 2).symm
      _ ≤ 2 ^ (971 : ℤ) := zpow_le_zpow_right₀ one_le_two (by norm_num)
  rw [Nat.abs_cast, overflowBound_eq]
  calc (number : ℚ) ≤ 2 ^ 53 := hcast
    _ < (2 ^ 53 - 1 / 2) * 2 := by norm_num
    _ ≤ (2 ^ 53 - 1 / 2) * 2 ^ (971 : ℤ) :=
        mul_le_mul_of_nonneg_left htwo (by norm_num)

/-- Whether an unpacked float stands for a positive whole number. -/
def standsFor (number : ℕ) : UnpackedFloat → Bool
  | .finite .positive mantissa exponent _ =>
    number * 2 ^ (-exponent).toNat == mantissa * 2 ^ exponent.toNat
  | _ => false

theorem isFinite_and_value_of_standsFor {x : Float} {number : ℕ}
    (hnumber : standsFor number x.toModel.unpack = true) :
    x.isFinite = true ∧ value x = number := by
  rw [isFinite_eq, value]
  generalize x.toModel.unpack = unpacked at hnumber ⊢
  cases unpacked with
  | notANumber | infinity | zero => cases hnumber
  | finite sign mantissa exponent hpos =>
    cases sign with
    | negative => cases hnumber
    | positive =>
      have heq : (number : ℚ) * 2 ^ (-exponent).toNat =
          mantissa * 2 ^ exponent.toNat := by
        exact_mod_cast beq_iff_eq.mp hnumber
      refine ⟨rfl, ?_⟩
      rw [unpackedValue, signed]
      rcases le_total 0 exponent with hle | hle
      · obtain ⟨count, rfl⟩ := Int.eq_ofNat_of_zero_le hle
        simpa using heq.symm
      · obtain ⟨count, hcount⟩ := Int.eq_ofNat_of_zero_le (neg_nonneg.mpr hle)
        obtain rfl : exponent = -(count : ℤ) := by omega
        rw [zpow_neg, zpow_natCast, ← div_eq_mul_inv, div_eq_iff (by positivity)]
        simpa using heq.symm

/-- The table of the powers of ten is exact. -/
theorem standsFor_powerOfTen :
    ∀ power : Fin 23, standsFor (10 ^ power.val)
      Float.exactlyRepresentablePowersOfTen[power].toModel.unpack = true := by
  decide +kernel

/-- Whole numbers of at most 53 digits fit a word and convert exactly. -/
theorem isFinite_and_value_toFloat {number : ℕ} (hnumber : number < 2 ^ 53) :
    number.toUInt64.toFloat.isFinite = true ∧
      value number.toUInt64.toFloat = number := by
  have hbound := natCast_lt_overflowBound hnumber.le
  have hword : number.toUInt64.toNat = number := by
    rw [Nat.toUInt64_eq, UInt64.toNat_ofNat']
    exact Nat.mod_eq_of_lt (by omega)
  have hconvert : Rounds number number.toUInt64.toFloat.toModel.unpack := by
    have hunpack : number.toUInt64.toFloat.toModel.unpack = (Float.Model.pack
        (UnpackedFloat.normalize .binary64 number.toUInt64.toNat 0
          .positive)).unpack := rfl
    have hnormalize := rounds_normalize number 0 .positive
    rw [zpow_zero, mul_one, Int.cast_natCast] at hnormalize
    rwa [hunpack, hword]
  exact ⟨hconvert.isFinite_iff.mpr hbound,
    hconvert.unpackedValue_eq hbound (nearest_natCast hnumber)⟩

/-- Whole numbers of at most 53 digits convert exactly. -/
theorem isFinite_and_value_ofNat {number : ℕ} (hnumber : number < 2 ^ 53) :
    (Float.ofNat number).isFinite = true ∧ value (Float.ofNat number) = number := by
  have hbound := natCast_lt_overflowBound hnumber.le
  have hexact := nearest_natCast hnumber
  obtain ⟨hfinite, hvalue⟩ := isFinite_and_value_toFloat hnumber
  obtain ⟨hone, hvalueOne⟩ :=
    isFinite_and_value_of_standsFor (standsFor_powerOfTen 0)
  have hproduct := rounds_mul hfinite hone
  rw [hvalue, hvalueOne, Fin.val_zero, pow_zero, Nat.cast_one, mul_one] at hproduct
  have hofNat : Float.ofNat number = number.toUInt64.toFloat *
      Float.exactlyRepresentablePowersOfTen[(0 : Fin 23)] :=
    dif_pos ⟨hnumber, by norm_num⟩
  rw [hofNat]
  exact ⟨hproduct.isFinite_iff.mpr hbound, hproduct.unpackedValue_eq hbound hexact⟩

end TournamentScoring.Binary64
