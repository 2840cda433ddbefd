import TournamentScoring.Json.Lexeme
import TournamentScoring.Proofs.Binary64.Bounds
import TournamentScoring.Proofs.Decimal.Digits
import TournamentScoring.Proofs.Decimal.Shortest

/-!
# Numbers of JSON texts as floats

The reader of JSON texts rounds the digits of a number, then a power of ten, and at last
their product or quotient.  Short numbers are exact up to the last step, so they are read
as the nearest float.  Other ones may be read as a neighbour of it, but the digits that a
float is written with never get out of range on the way.
-/

namespace TournamentScoring.Json

open TournamentScoring.Binary64 TournamentScoring.Decimal

/-! ## Digits that fit a word -/

theorem withDigit_mul_add (significand : Nat) (digit : Char) (digits : List Char) :
    withDigit significand digit * 10 ^ digits.length + digitsValue digits =
      significand * 10 ^ (digit :: digits).length + digitsValue (digit :: digits) := by
  rw [digitsValue_cons, List.length_cons, withDigit]
  ring

theorem lt_of_mul_add_lt {number count rest bound : Nat}
    (hless : number * 10 ^ count + rest < bound) : number < bound := by
  have hpower : 1 ≤ 10 ^ count := Nat.one_le_pow _ _ (by decide)
  exact (Nat.le_mul_of_pos_right _ hpower).trans_lt ((Nat.le_add_right _ _).trans_lt hless)

theorem pushWhole_of_fits {significand : Nat} {digits : List Char}
    (hfits : significand * 10 ^ digits.length + digitsValue digits < UInt64.size) :
    pushWhole significand digits =
      ⟨significand * 10 ^ digits.length + digitsValue digits, 0⟩ := by
  induction digits generalizing significand with
  | nil => rw [pushWhole, List.length_nil, pow_zero, Nat.mul_one]; rfl
  | cons digit digits ih =>
    rw [← withDigit_mul_add] at hfits ⊢
    rw [pushWhole, if_pos (lt_of_mul_add_lt hfits)]
    exact ih hfits

theorem pushFraction_of_fits {decimal : Scientific} {digits : List Char}
    (hfits : decimal.digits * 10 ^ digits.length + digitsValue digits < UInt64.size) :
    pushFraction decimal digits =
      ⟨decimal.digits * 10 ^ digits.length + digitsValue digits,
        decimal.exponent - digits.length⟩ := by
  induction digits generalizing decimal with
  | nil =>
    rw [pushFraction, List.length_nil, pow_zero, Nat.mul_one, Nat.cast_zero, sub_zero]
    rfl
  | cons digit digits ih =>
    rw [← withDigit_mul_add] at hfits ⊢
    have hrest := @ih ⟨withDigit decimal.digits digit, decimal.exponent - 1⟩ hfits
    rw [pushFraction, if_pos (lt_of_mul_add_lt hfits), hrest, List.length_cons,
      Nat.cast_succ, sub_sub, add_comm 1]

namespace NumberParts

/-- The number of the parts without its sign, with all of its digits. -/
def decimal (parts : NumberParts) : Scientific where
  digits := digitsValue (parts.whole ++ parts.fraction.getD [])
  exponent := parts.exponentValue - (parts.fraction.getD []).length

/-- Digits that fit a significand are all kept. -/
theorem kept_of_fits {parts : NumberParts} (hfits : parts.decimal.digits < UInt64.size) :
    parts.kept = parts.decimal := by
  have hvalue : parts.decimal.digits =
      digitsValue parts.whole * 10 ^ (parts.fraction.getD []).length +
        digitsValue (parts.fraction.getD []) := digitsValue_append _ _
  rw [hvalue] at hfits
  have hwhole : pushWhole 0 parts.whole = ⟨digitsValue parts.whole, 0⟩ := by
    rw [pushWhole_of_fits, Nat.zero_mul, Nat.zero_add]
    rw [Nat.zero_mul, Nat.zero_add]
    exact lt_of_mul_add_lt hfits
  have hfraction := @pushFraction_of_fits ⟨digitsValue parts.whole, 0⟩ _ hfits
  rw [kept, hwhole, hfraction, decimal, digitsValue_append]
  simp only [zero_sub, neg_add_eq_sub]

end NumberParts

/-! ## Range -/

/-- The bound of the numbers in range as a natural number. -/
def overflowNumber : Nat :=
  2 ^ 1024 - 2 ^ 970

theorem overflowBound_eq_overflowNumber : overflowBound = overflowNumber := by
  have hcast {less more : ℕ} (hle : less ≤ more) :
      ((2 ^ more - 2 ^ less : ℕ) : ℚ) = 2 ^ more - 2 ^ less := by
    rw [Nat.cast_sub (Nat.pow_le_pow_right (by decide) hle), Nat.cast_pow, Nat.cast_pow,
      Nat.cast_ofNat]
  exact (hcast (by decide)).symm

/-- The power of ten behind the first seventeen digits of the bound. -/
def boundPower : Nat := 292

theorem overflowNumber_bounds :
    10 ^ largestPower < overflowNumber ∧
      overflowNumber ≤ 17976931348623159 * 10 ^ boundPower := by
  decide +kernel

theorem ten_pow_lt_overflowNumber {power : Nat} (hpower : power ≤ largestPower) :
    10 ^ power < overflowNumber :=
  (Nat.pow_le_pow_right (by decide) hpower).trans_lt overflowNumber_bounds.1

theorem overflowNumber_le_ten_pow {power : Nat} (hpower : largestPower < power) :
    overflowNumber ≤ 10 ^ power := by
  obtain ⟨-, hbound⟩ := overflowNumber_bounds
  have hnext : 17 + boundPower = largestPower + 1 := rfl
  generalize boundPower = tail at hbound hnext
  calc overflowNumber ≤ 17976931348623159 * 10 ^ tail := hbound
    _ ≤ 10 ^ 17 * 10 ^ tail := Nat.mul_le_mul_right _ (by decide)
    _ = 10 ^ (17 + tail) := (Nat.pow_add _ _ _).symm
    _ ≤ 10 ^ power := Nat.pow_le_pow_right (by decide) (hnext.trans_le hpower)

/-- Rounding a whole number that is in range. -/
theorem isFinite_and_value_of_rounds {number : Nat} {x : Float}
    (hrounds : Rounds number x.toModel.unpack) (hrange : number < overflowNumber) :
    x.isFinite = true ∧ value x = nearest number := by
  have hbound : |(number : ℚ)| < overflowBound := by
    rw [Nat.abs_cast, overflowBound_eq_overflowNumber]
    exact_mod_cast hrange
  rwa [Rounds, if_pos hbound] at hrounds

/-! ## Significands and powers of ten -/

theorem rounds_ofNat {number : Nat} (hpos : 0 < number) :
    Rounds number (Float.ofNat number).toModel.unpack := by
  have hrounds := rounds_ofScientific_mul hpos 0
  rw [pow_zero, mul_one] at hrounds
  exact hrounds

theorem rounds_tenToThe (power : Nat) :
    Rounds (10 ^ power : ℕ) (tenToThe power).toModel.unpack := by
  have hrounds := rounds_ofScientific_mul Nat.one_pos power
  rw [Nat.cast_one, one_mul] at hrounds
  rw [Nat.cast_pow, Nat.cast_ofNat]
  exact hrounds

/-- The first powers of ten are exact: the powers of five in them have at most 53 digits. -/
theorem isFinite_and_value_tenToThe {power : Nat} (hpower : power ≤ 22) :
    (tenToThe power).isFinite = true ∧ value (tenToThe power) = 10 ^ power := by
  have hrange := @ten_pow_lt_overflowNumber power (by rw [largestPower]; omega)
  obtain ⟨hfinite, hvalue⟩ := isFinite_and_value_of_rounds (rounds_tenToThe power) hrange
  have hfive : 5 ^ power < 2 ^ 53 :=
    (Nat.pow_le_pow_right (by decide) hpower).trans_lt (by decide)
  have hexact := @nearest_natCast_mul _ power hfive
  rw [Nat.cast_pow, Nat.cast_ofNat, ← mul_pow] at hexact
  norm_num at hexact
  rw [Nat.cast_pow, Nat.cast_ofNat, hexact] at hvalue
  exact ⟨hfinite, hvalue⟩

/-! ## Scaling -/

theorem scaled?_of_isFinite {digits power : Nat} (hpower : power ≤ largestPower)
    (hfinite : (Float.ofNat digits * tenToThe power).isFinite = true) :
    scaled? ⟨digits, power⟩ = some (Float.ofNat digits * tenToThe power) := by
  simp only [scaled?, Int.natCast_nonneg, if_true, Int.toNat_natCast, hpower, hfinite]

theorem scaled?_neg (digits : Nat) {places : Nat} (hpos : 0 < places) :
    scaled? ⟨digits, -places⟩ =
      some (lowered (Float.ofNat digits) ((places - 1) / largestPower) /
        tenToThe (places - (places - 1) / largestPower * largestPower)) := by
  have hneg : ¬0 ≤ -(places : ℤ) := by omega
  simp only [scaled?, hneg, if_false, neg_neg, Int.toNat_natCast]

/-! ## Short numbers -/

/-- A number with a short significand and a small power of ten is read as the nearest
float. -/
theorem exists_scaled?_of_short {decimal : Scientific} (hdigits : decimal.digits < 2 ^ 53)
    (hexponent : |decimal.exponent| ≤ 22) :
    ∃ magnitude, scaled? decimal = some magnitude ∧
      Rounds decimal.value magnitude.toModel.unpack := by
  obtain ⟨digits, exponent⟩ := decimal
  obtain ⟨hfinite, hvalue⟩ := isFinite_and_value_ofNat hdigits
  obtain ⟨hlow, hhigh⟩ := abs_le.mp hexponent
  rw [Scientific.value]
  dsimp only at *
  rcases le_or_gt 0 exponent with hnonneg | hneg
  · obtain ⟨power, rfl⟩ := Int.eq_ofNat_of_zero_le hnonneg
    obtain ⟨hten, hvalueTen⟩ := @isFinite_and_value_tenToThe power (by omega)
    have hsignificand : IsWithin (Float.ofNat digits) 53 := by
      refine ⟨hfinite, ?_⟩
      rw [hvalue, Nat.abs_cast]
      exact_mod_cast hdigits.le
    have hpower : IsWithin (tenToThe power) 74 := by
      refine ⟨hten, ?_⟩
      rw [hvalueTen, abs_of_pos (by positivity)]
      have hle : (10 : ℚ) ^ power ≤ 10 ^ 22 := pow_le_pow_right₀ (by norm_num) (by omega)
      exact hle.trans (by norm_num)
    have hrounds := rounds_mul hfinite hten
    rw [hvalue, hvalueTen] at hrounds
    refine ⟨_, scaled?_of_isFinite (by rw [largestPower]; omega)
      (hsignificand.mul hpower (by decide)).isFinite, ?_⟩
    rw [zpow_natCast]
    exact hrounds
  · obtain ⟨places, hplaces⟩ := Int.eq_ofNat_of_zero_le (by omega : 0 ≤ -exponent)
    obtain rfl : exponent = -(places : ℤ) := by omega
    obtain ⟨hten, hvalueTen⟩ := @isFinite_and_value_tenToThe places (by omega)
    have hne : value (tenToThe places) ≠ 0 := by
      rw [hvalueTen]
      positivity
    have hrounds := rounds_div hfinite hten hne
    have htimes : (places - 1) / largestPower = 0 :=
      Nat.div_eq_of_lt (by rw [largestPower]; omega)
    refine ⟨_, scaled?_neg digits (by omega), ?_⟩
    rw [htimes, Nat.zero_mul, Nat.sub_zero, lowered, zpow_neg, zpow_natCast,
      ← div_eq_mul_inv]
    rw [hvalue, hvalueTen] at hrounds
    exact hrounds

/-! ## Products in range -/

/-- A product of rounded whole numbers is finite if the product of the rounded numbers is
in range. -/
theorem isFinite_mul_iff {digits power : Nat} (hpos : 0 < digits)
    (hdigits : digits < overflowNumber) (hpower : power ≤ largestPower) :
    (Float.ofNat digits * tenToThe power).isFinite = true ↔
      nearest digits * nearest (10 ^ power : ℕ) < overflowNumber := by
  obtain ⟨hleft, hvalueLeft⟩ := isFinite_and_value_of_rounds (rounds_ofNat hpos) hdigits
  obtain ⟨hright, hvalueRight⟩ := isFinite_and_value_of_rounds (rounds_tenToThe power)
    (ten_pow_lt_overflowNumber hpower)
  have hnonneg (number : Nat) : 0 ≤ nearest number := nearest_nonneg (Nat.cast_nonneg number)
  have hrounds := rounds_mul hleft hright
  rw [hvalueLeft, hvalueRight] at hrounds
  refine hrounds.isFinite_iff.trans ?_
  rw [overflowBound_eq_overflowNumber, abs_of_nonneg (mul_nonneg (hnonneg _) (hnonneg _))]

/-- A product up to this one is in range however its factors are rounded. -/
def safeProduct : Nat :=
  1797693134862315 * 10 ^ (boundPower + 1)

theorem safeProduct_margin :
    safeProduct * (2 ^ 53 + 1) ^ 2 < overflowNumber * (2 ^ 53) ^ 2 := by
  decide +kernel

theorem isFinite_mul_of_le_safeProduct {digits power : Nat} (hpos : 0 < digits)
    (hpower : power ≤ largestPower) (hsafe : digits * 10 ^ power ≤ safeProduct) :
    (Float.ofNat digits * tenToThe power).isFinite = true := by
  have hten : 0 < 10 ^ power := Nat.pow_pos (by decide)
  have hmargin : digits * 10 ^ power * (2 ^ 53 + 1) ^ 2 < overflowNumber * (2 ^ 53) ^ 2 :=
    (Nat.mul_le_mul_right _ hsafe).trans_lt safeProduct_margin
  have hproduct : digits * 10 ^ power < overflowNumber := by
    by_contra hmore
    have hle := Nat.mul_le_mul (not_lt.mp hmore) (by decide : (2 ^ 53) ^ 2 ≤ (2 ^ 53 + 1) ^ 2)
    exact hle.not_gt hmargin
  have hdigits : digits < overflowNumber := (Nat.le_mul_of_pos_right _ hten).trans_lt hproduct
  have hrounded : nearest digits * nearest (10 ^ power : ℕ) * (2 ^ 53) ^ 2 ≤
      (digits : ℚ) * (10 ^ power : ℕ) * (2 ^ 53 + 1) ^ 2 :=
    nearest_mul_nearest_le (by exact_mod_cast hpos) (by exact_mod_cast hten)
  have hcast : (digits : ℚ) * (10 ^ power : ℕ) * (2 ^ 53 + 1) ^ 2 <
      overflowNumber * (2 ^ 53) ^ 2 := by
    exact_mod_cast hmargin
  rw [isFinite_mul_iff hpos hdigits hpower]
  exact lt_of_mul_lt_mul_right (hrounded.trans_lt hcast) (by positivity)

/-- The greatest significand of seventeen digits that stays in range when it is rounded.
There is one more that is in range before that. -/
theorem isFinite_mul_of_le_greatest {digits : Nat} (hpos : 0 < digits)
    (hdigits : digits ≤ 17976931348623157) :
    (Float.ofNat digits * tenToThe boundPower).isFinite = true := by
  have hgreatest : (Float.ofNat 17976931348623157 * tenToThe boundPower).isFinite = true := by
    decide +kernel
  have hrange : 17976931348623157 < overflowNumber :=
    (by decide : 17976931348623157 < 10 ^ 17).trans
      (ten_pow_lt_overflowNumber (by decide : 17 ≤ largestPower))
  have hpower : boundPower ≤ largestPower := by decide
  rw [isFinite_mul_iff (by decide) hrange hpower] at hgreatest
  rw [isFinite_mul_iff hpos (hdigits.trans_lt hrange) hpower]
  refine lt_of_le_of_lt (mul_le_mul_of_nonneg_right ?_ ?_) hgreatest
  · exact nearest_mono (Nat.cast_le.mpr hdigits)
  · exact nearest_nonneg (Nat.cast_nonneg _)

theorem isFinite_mul_of_lt {digits power : Nat} (hpos : 0 < digits)
    (hdigits : digits < 10 ^ 17) (hpower : power ≤ largestPower)
    (hrange : digits * 10 ^ power < overflowNumber)
    (hexception : ¬(digits = 17976931348623158 ∧ power = boundPower)) :
    (Float.ofNat digits * tenToThe power).isFinite = true := by
  have hless := hrange.trans_le overflowNumber_bounds.2
  rcases lt_trichotomy power boundPower with hlow | rfl | hhigh
  · apply isFinite_mul_of_le_safeProduct hpos hpower
    calc digits * 10 ^ power ≤ 10 ^ 15 * 10 ^ 2 * 10 ^ power :=
          Nat.mul_le_mul_right _ hdigits.le
      _ = 10 ^ 15 * 10 ^ (2 + power) := by rw [Nat.mul_assoc, ← Nat.pow_add]
      _ ≤ 10 ^ 15 * 10 ^ (boundPower + 1) :=
          Nat.mul_le_mul_left _ (Nat.pow_le_pow_right (by decide) (by omega))
      _ ≤ safeProduct := Nat.mul_le_mul_right _ (by decide)
  · have hnext := lt_of_mul_lt_mul_right hless (Nat.zero_le _)
    exact isFinite_mul_of_le_greatest hpos (by omega)
  · apply isFinite_mul_of_le_safeProduct hpos hpower
    obtain ⟨more, rfl⟩ := Nat.exists_eq_add_of_le' (Nat.succ_le_of_lt hhigh)
    rw [safeProduct]
    generalize boundPower = tail at hless ⊢
    -- the zeros that the power has beyond the bound go to the digits
    have hwhole : digits * 10 ^ (more + tail.succ) = digits * 10 ^ more * 10 * 10 ^ tail := by
      rw [Nat.pow_add, Nat.pow_succ', Nat.mul_assoc, Nat.mul_assoc]
    have hsplit : 1797693134862315 * 10 ^ (tail + 1) = 1797693134862315 * 10 * 10 ^ tail := by
      rw [Nat.pow_succ', Nat.mul_assoc]
    rw [hwhole] at hless ⊢
    rw [hsplit]
    have hdrop := lt_of_mul_lt_mul_right hless (Nat.zero_le _)
    exact Nat.mul_le_mul_right _ (by omega)

/-- Up to seventeen digits that are in range are so as a product of rounded factors, with
one exception. -/
theorem exists_scaled?_of_lt {decimal : Scientific} (hpos : 0 < decimal.digits)
    (hdigits : decimal.digits < 10 ^ 17) (hrange : decimal.value < overflowBound)
    (hexception : decimal ≠ ⟨17976931348623158, 292⟩) :
    ∃ magnitude, scaled? decimal = some magnitude := by
  obtain ⟨digits, exponent⟩ := decimal
  rw [Scientific.value] at hrange
  dsimp only at hpos hdigits hrange
  rcases le_or_gt 0 exponent with hnonneg | hneg
  · obtain ⟨power, rfl⟩ := Int.eq_ofNat_of_zero_le hnonneg
    have hproduct : digits * 10 ^ power < overflowNumber := by
      rw [zpow_natCast, overflowBound_eq_overflowNumber] at hrange
      exact_mod_cast hrange
    have hpower : power ≤ largestPower := by
      by_contra hmore
      have hleast := overflowNumber_le_ten_pow (not_le.mp hmore)
      exact (hleast.trans (Nat.le_mul_of_pos_left _ hpos)).not_gt hproduct
    exact ⟨_, scaled?_of_isFinite hpower (isFinite_mul_of_lt hpos hdigits hpower hproduct
      (by rintro ⟨rfl, rfl⟩; exact hexception rfl))⟩
  · obtain ⟨places, hplaces⟩ := Int.eq_ofNat_of_zero_le (by omega : 0 ≤ -exponent)
    obtain rfl : exponent = -(places : ℤ) := by omega
    exact ⟨_, scaled?_neg digits (by omega)⟩

end TournamentScoring.Json
