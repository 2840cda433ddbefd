import TournamentScoring.Decimal.Rounding
import TournamentScoring.Proofs.Binary64.Arithmetic
import TournamentScoring.Proofs.Binary64.Negation

/-!
# What rounding to places computes

Rounding multiplies by a power of ten, takes the nearest whole number and divides by the
power again.  Up to six places the power is exact, so what is computed is told by the value
alone as long as the product stays in range.  Only the product can leave it: a finite value
stays finite exactly if it is smaller than the overflow bound after scaling.
-/

namespace TournamentScoring.Decimal

open Float.Model
open TournamentScoring.Binary64

/-! ## The nearest whole number -/

/-- The nearest whole number, a half going away from zero. -/
def nearestAway (x : ℚ) : ℤ :=
  if x < 0 then -round (-x) else round x

theorem nearestAway_intCast (number : ℤ) : nearestAway number = number := by
  rw [nearestAway]
  split
  · rw [← Int.cast_neg, round_intCast, neg_neg]
  · exact round_intCast number

theorem nearestAway_signed (sign : UnpackedFloat.Sign) {x : ℚ} (hx : 0 ≤ x) :
    (nearestAway (signed sign x) : ℚ) = signed sign (round x) := by
  cases sign with
  | positive =>
    change ((nearestAway x : ℤ) : ℚ) = round x
    rw [nearestAway, if_neg hx.not_gt]
  | negative =>
    change ((nearestAway (-x) : ℤ) : ℚ) = -round x
    rcases hx.eq_or_lt with rfl | hpos
    · rw [neg_zero, nearestAway, if_neg (lt_irrefl 0), round_zero, Int.cast_zero, neg_zero]
    · rw [nearestAway, if_pos (neg_neg_of_pos hpos), neg_neg, Int.cast_neg]

/-- Whole numbers are rounded with integers only. -/
theorem roundedQuotient_eq (mantissa places : ℕ) :
    (roundedQuotient mantissa places : ℤ) = round ((mantissa : ℚ) / 2 ^ places) := by
  have hpos : (0 : ℚ) < 2 ^ places := by positivity
  have hsum : (mantissa : ℚ) / 2 ^ places + 1 / 2 =
      (2 * mantissa + 2 ^ places : ℕ) / (2 ^ (places + 1) : ℕ) := by
    push_cast
    rw [pow_succ]
    field_simp
  rw [round_eq, hsum, Rat.floor_natCast_div_natCast]
  rfl

/-! ## The factor -/

theorem placesFactor_eq :
    ∀ places : Fin 7,
      placesFactor (UInt32.ofNat places) = Float.ofNat (10 ^ places.val) := by
  decide +kernel

/-- Up to six places, the factor is an exact power of ten. -/
theorem isFinite_and_value_placesFactor {decimals : UInt32}
    (hdecimals : decimals.toNat ≤ 6) :
    (placesFactor decimals).isFinite = true ∧
      value (placesFactor decimals) = 10 ^ decimals.toNat := by
  have hfactor := placesFactor_eq ⟨decimals.toNat, Nat.lt_succ_of_le hdecimals⟩
  have hword : UInt32.ofNat decimals.toNat = decimals := UInt32.ofNat_toNat
  have hpower : 10 ^ decimals.toNat < 2 ^ 53 :=
    calc 10 ^ decimals.toNat ≤ 10 ^ 6 := Nat.pow_le_pow_right (by norm_num) hdecimals
      _ < 2 ^ 53 := by norm_num
  obtain ⟨hfinite, hvalue⟩ := isFinite_and_value_ofNat hpower
  rw [← hfactor, hword] at hfinite hvalue
  exact ⟨hfinite, by rw [hvalue]; norm_num⟩

/-! ## Rounding to a whole number -/

/-- Rounding to a whole number does not add digits. -/
theorem roundedQuotient_lt {mantissa : ℕ} (hmantissa : mantissa < 2 ^ 53)
    (places : ℕ) : roundedQuotient mantissa places < 2 ^ 53 := by
  have hpos : 0 < 2 ^ places := Nat.two_pow_pos places
  have hdouble : 2 ^ (places + 1) = 2 ^ places * 2 := pow_succ 2 places
  have hquotient : roundedQuotient mantissa places =
      (2 * mantissa + 2 ^ places) / 2 ^ (places + 1) := rfl
  rw [hquotient, Nat.div_lt_iff_lt_mul (Nat.two_pow_pos _), hdouble]
  omega

theorem isFinite_roundHalfAway {x : Float} (hx : x.isFinite = true) :
    (roundHalfAway x).isFinite = true := by
  obtain ⟨sign, mantissa, exponent, hcanonical, -, hunpack, -⟩ :=
    exists_unpack_eq hx
  rcases Nat.eq_zero_or_pos mantissa with rfl | hpos
  · have hzero : x.toModel.unpack = .zero sign := hunpack
    rw [roundHalfAway, hzero]
    exact hx
  · rw [assemble_of_pos hpos] at hunpack
    obtain ⟨hwhole, -⟩ := isFinite_and_value_ofNat
      (roundedQuotient_lt hcanonical.mantissa_lt (-exponent).toNat)
    rw [roundHalfAway, hunpack]
    simp only
    split
    · exact hx
    · cases sign with
      | negative => exact (isFinite_neg _).trans hwhole
      | positive => exact hwhole

theorem value_roundHalfAway {x : Float} (hx : x.isFinite = true) :
    value (roundHalfAway x) = nearestAway (value x) := by
  obtain ⟨sign, mantissa, exponent, hcanonical, -, hunpack, hvalue⟩ :=
    exists_unpack_eq hx
  have hmagnitude : (0 : ℚ) ≤ mantissa * 2 ^ exponent :=
    mul_nonneg (Nat.cast_nonneg mantissa) (two_zpow_pos _).le
  rcases Nat.eq_zero_or_pos mantissa with rfl | hpos
  · have hzero : x.toModel.unpack = .zero sign := hunpack
    rw [roundHalfAway, hzero, hvalue, Nat.cast_zero, zero_mul, signed_zero]
    exact_mod_cast (nearestAway_intCast 0).symm
  · rw [assemble_of_pos hpos] at hunpack
    rw [hvalue, nearestAway_signed sign hmagnitude, roundHalfAway, hunpack]
    simp only
    split
    · next hwhole =>
      -- The number is whole already.
      obtain ⟨places, rfl⟩ := Int.eq_ofNat_of_zero_le hwhole
      have hcast : (mantissa : ℚ) * 2 ^ (places : ℤ) = (mantissa * 2 ^ places : ℕ) := by
        push_cast
        rw [zpow_natCast]
      rw [hvalue, hcast, round_natCast, Int.cast_natCast]
    · next hfraction =>
      obtain ⟨places, hplaces⟩ := Int.eq_ofNat_of_zero_le (neg_nonneg.mpr
        (not_le.mp hfraction).le)
      have hquotient := roundedQuotient_eq mantissa places
      have hexponent : (mantissa : ℚ) * 2 ^ exponent = mantissa / 2 ^ places := by
        rw [← neg_neg exponent, hplaces, zpow_neg, zpow_natCast, div_eq_mul_inv]
      have hwhole := (isFinite_and_value_ofNat
        (roundedQuotient_lt hcanonical.mantissa_lt places)).2
      rw [hplaces, Int.toNat_natCast, hexponent, ← hquotient, Int.cast_natCast, ← hwhole]
      cases sign with
      | negative => exact value_neg _
      | positive => rfl

theorem roundHalfAway_of_infinity {x : Float} {sign : UnpackedFloat.Sign}
    (hx : x.toModel.unpack = .infinity sign) : roundHalfAway x = x := by
  rw [roundHalfAway, hx]

/-! ## Rounding to places -/

/-- What rounding to places computes: the product, the whole number that is nearest to it
and the quotient of that are each rounded to a float.  The product must stay in range. -/
theorem isFinite_and_value_roundTo {x : Float} (hx : x.isFinite = true)
    {decimals : UInt32} (hdecimals : decimals.toNat ≤ 6)
    (hscaled : |value x| * 10 ^ decimals.toNat < overflowBound) :
    (roundTo x decimals).isFinite = true ∧
      value (roundTo x decimals) =
        nearest (nearestAway (nearest (value x * 10 ^ decimals.toNat)) /
          10 ^ decimals.toNat) := by
  obtain ⟨hfactor, hvalue⟩ := isFinite_and_value_placesFactor hdecimals
  have hten : (0 : ℚ) < 10 ^ decimals.toNat := by positivity
  have hproduct := rounds_mul hx hfactor
  have hbound : |value x * 10 ^ decimals.toNat| < overflowBound := by
    rwa [abs_mul, abs_of_pos hten]
  rw [hvalue, Rounds, if_pos hbound] at hproduct
  obtain ⟨hfinite, hscaledValue⟩ := hproduct
  have hwhole := isFinite_roundHalfAway hfinite
  have hquotient := rounds_div hwhole hfactor (by rw [hvalue]; exact hten.ne')
  -- Dividing by a factor of at least one stays in range.
  have hrange : |value (roundHalfAway (x * placesFactor decimals)) / 10 ^ decimals.toNat| <
      overflowBound := by
    rw [abs_div, abs_of_pos hten]
    exact (div_le_self (abs_nonneg _) (one_le_pow₀ (by norm_num))).trans_lt
      (abs_value_lt hwhole)
  rw [hvalue, Rounds, if_pos hrange, value_roundHalfAway hfinite, value, hscaledValue]
    at hquotient
  exact hquotient

theorem exists_roundTo_infinity {x : Float} (hx : x.isFinite = true)
    {decimals : UInt32} (hdecimals : decimals.toNat ≤ 6)
    (hscaled : ¬|value x| * 10 ^ decimals.toNat < overflowBound) :
    ∃ sign, (roundTo x decimals).toModel.unpack = .infinity sign := by
  obtain ⟨hfactor, hvalue⟩ := isFinite_and_value_placesFactor hdecimals
  have hproduct := rounds_mul hx hfactor
  rw [hvalue] at hproduct
  have hbound : ¬|value x * 10 ^ decimals.toNat| < overflowBound := by
    rwa [abs_mul, abs_of_pos (by positivity : (0 : ℚ) < 10 ^ decimals.toNat)]
  obtain ⟨sign, hinfinity⟩ := hproduct.exists_infinity hbound
  rw [roundTo, roundHalfAway_of_infinity hinfinity]
  exact exists_div_eq_infinity hinfinity hfactor

end TournamentScoring.Decimal
