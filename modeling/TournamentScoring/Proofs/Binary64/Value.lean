import TournamentScoring.Proofs.Binary64.Packing

/-!
# Values of floats

A finite float stands for a rational number: its sign, mantissa and exponent.
-/

namespace TournamentScoring.Binary64

open Float.Model Float.Model.UnpackedFloat

/-! ## Values -/

def signed : Sign → ℚ → ℚ
  | .negative, magnitude => -magnitude
  | .positive, magnitude => magnitude

def unpackedValue : UnpackedFloat → ℚ
  | .finite sign mantissa exponent _ => signed sign (mantissa * 2 ^ exponent)
  | _ => 0

/-- The number that a finite float stands for. -/
def value (x : Float) : ℚ :=
  unpackedValue x.toModel.unpack

theorem isFinite_eq (x : Float) : x.isFinite = x.toModel.unpack.isFinite := rfl

theorem isNaN_eq (x : Float) : x.isNaN = x.toModel.unpack.isNaN := rfl

theorem isNaN_of_isFinite {x : Float} (hx : x.isFinite = true) :
    x.isNaN = false := by
  rw [isFinite_eq] at hx
  rw [isNaN_eq]
  cases hunpack : x.toModel.unpack with
  | notANumber =>
    rw [hunpack] at hx
    cases hx
  | infinity sign | zero sign | finite sign mantissa exponent hpos => rfl

/-! ## Signs -/

theorem abs_signed (sign : Sign) (x : ℚ) : |signed sign x| = |x| := by
  cases sign
  · exact abs_neg x
  · rfl

theorem signed_zero (sign : Sign) : signed sign 0 = 0 := by
  cases sign
  · exact neg_zero
  · rfl

theorem nearest_signed (sign : Sign) (x : ℚ) :
    nearest (signed sign x) = signed sign (nearest x) := by
  cases sign
  · exact nearest_neg x
  · rfl

theorem signed_mul (left right : Sign) (x y : ℚ) :
    signed left x * signed right y = signed (left * right) (x * y) := by
  cases left <;> cases right
  · exact neg_mul_neg x y
  · exact neg_mul x y
  · exact mul_neg x y
  · rfl

theorem signed_div (left right : Sign) (x y : ℚ) :
    signed left x / signed right y = signed (left / right) (x / y) := by
  cases left <;> cases right
  · exact neg_div_neg_eq x y
  · exact neg_div y x
  · exact div_neg x
  · rfl

/-! ## Finite floats -/

theorem unpackedValue_assemble (sign : Sign) (mantissa : ℕ) (exponent : ℤ) :
    unpackedValue (assemble sign mantissa exponent) =
      signed sign (mantissa * 2 ^ exponent) := by
  rcases Nat.eq_zero_or_pos mantissa with rfl | hpos
  · rw [Nat.cast_zero, zero_mul, signed_zero]
    rfl
  · rw [assemble_of_pos hpos]
    rfl

theorem isFinite_assemble (sign : Sign) (mantissa : ℕ) (exponent : ℤ) :
    (assemble sign mantissa exponent).isFinite = true := by
  rw [assemble]
  split <;> rfl

/-- A finite float is a sign with a canonical mantissa and exponent. -/
theorem exists_unpack_eq {x : Float} (hx : x.isFinite = true) :
    ∃ sign mantissa exponent, Canonical mantissa exponent ∧ exponent ≤ 971 ∧
      x.toModel.unpack = assemble sign mantissa exponent ∧
      value x = signed sign (mantissa * 2 ^ exponent) := by
  have hunpacked : Unpacked x.toModel.unpack := unpacked_unpack _
  rw [isFinite_eq] at hx
  rw [value]
  generalize x.toModel.unpack = unpacked at hx hunpacked ⊢
  cases hunpacked with
  | notANumber => cases hx
  | infinity sign => cases hx
  | finite sign hcanonical hexponent =>
    exact ⟨sign, _, _, hcanonical, hexponent, rfl, unpackedValue_assemble _ _ _⟩

/-- No finite float is larger than the largest one. -/
theorem abs_value_le {x : Float} (hx : x.isFinite = true) :
    |value x| ≤ (2 ^ 53 - 1) * 2 ^ (971 : ℤ) := by
  obtain ⟨sign, mantissa, exponent, hcanonical, hexponent, -, hvalue⟩ :=
    exists_unpack_eq hx
  have hmantissa : (mantissa : ℚ) ≤ 2 ^ 53 - 1 := by
    have hsucc : mantissa + 1 ≤ 2 ^ 53 := hcanonical.mantissa_lt
    rw [le_sub_iff_add_le]
    exact_mod_cast hsucc
  have hnonneg : (0 : ℚ) ≤ mantissa * 2 ^ exponent :=
    mul_nonneg (Nat.cast_nonneg mantissa) (two_zpow_pos _).le
  rw [hvalue, abs_signed, abs_of_nonneg hnonneg]
  calc (mantissa : ℚ) * 2 ^ exponent ≤ (2 ^ 53 - 1) * 2 ^ exponent :=
        mul_two_zpow_le hmantissa exponent
    _ ≤ (2 ^ 53 - 1) * 2 ^ (971 : ℤ) :=
        mul_le_mul_of_nonneg_left (zpow_le_zpow_right₀ one_le_two hexponent)
          (by norm_num)

/-- A finite float is smaller than all numbers that overflow. -/
theorem abs_value_lt {x : Float} (hx : x.isFinite = true) :
    |value x| < overflowBound := by
  rw [overflowBound_eq]
  calc |value x| ≤ (2 ^ 53 - 1) * 2 ^ (971 : ℤ) := abs_value_le hx
    _ < (2 ^ 53 - 1 / 2) * 2 ^ (971 : ℤ) := mul_two_zpow_lt (by norm_num) 971

/-! ## Negation -/

theorem neg_assemble (sign : Sign) (mantissa : ℕ) (exponent : ℤ) :
    (assemble sign mantissa exponent).neg = assemble (-sign) mantissa exponent := by
  rcases Nat.eq_zero_or_pos mantissa with rfl | hpos
  · rfl
  · rw [assemble_of_pos hpos, assemble_of_pos hpos]
    rfl

theorem unpack_neg (x : Float) : (-x).toModel.unpack = x.toModel.unpack.neg := by
  have hneg : (-x).toModel.unpack =
      (Float.Model.pack x.toModel.unpack.neg).unpack := rfl
  have hunpacked : Unpacked x.toModel.unpack := unpacked_unpack _
  rw [hneg]
  apply unpack_pack
  generalize x.toModel.unpack = unpacked at hunpacked ⊢
  cases hunpacked with
  | notANumber => exact .notANumber
  | infinity sign => exact .infinity (-sign)
  | finite sign hcanonical hexponent =>
    rw [neg_assemble]
    exact .finite (-sign) hcanonical hexponent

theorem isFinite_neg (x : Float) : (-x).isFinite = x.isFinite := by
  rw [isFinite_eq, isFinite_eq, unpack_neg]
  cases x.toModel.unpack <;> rfl

end TournamentScoring.Binary64
