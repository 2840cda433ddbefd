import Mathlib
import TournamentScoring.Proofs.Binary64.Arithmetic
import TournamentScoring.Proofs.Binary64.Identity

/-!
# Negated floats

The sign of a float is a bit of its own: no rounding and no packing looks at it.  So a
negated operand negates a product and a quotient to the bit, signed zeros included.
-/

namespace TournamentScoring.Binary64

open Float.Model Float.Model.UnpackedFloat

/-! ## Packing -/

theorem unpack_packComponents_neg (sign : Sign) (exponent : BitVec 11)
    (mantissa : BitVec 52) :
    UnpackedFloat.unpack .binary64 (packComponents .binary64 (-sign) exponent mantissa) =
      (UnpackedFloat.unpack .binary64
        (packComponents .binary64 sign exponent mantissa)).neg := by
  rw [UnpackedFloat.unpack, UnpackedFloat.unpack]
  simp only [unpackMantissa_packComponents, unpackExponent_packComponents,
    unpackSign_packComponents, ofBitVec_toBitVec]
  split_ifs <;> rfl

/-- Packing does not look at the sign, also where it overflows. -/
theorem unpack_pack_neg (unpacked : UnpackedFloat) :
    (Float.Model.pack unpacked.neg).unpack = (Float.Model.pack unpacked).unpack.neg := by
  cases unpacked with
  | notANumber =>
    rw [UnpackedFloat.neg, unpack_pack .notANumber]
    rfl
  | infinity sign =>
    rw [UnpackedFloat.neg, unpack_pack (.infinity _), unpack_pack (.infinity _)]
    rfl
  | zero sign =>
    rw [UnpackedFloat.neg, unpack_pack (unpacked_zero _), unpack_pack (unpacked_zero _)]
    rfl
  | finite sign mantissa exponent hpos =>
    change UnpackedFloat.unpack .binary64
        (UnpackedFloat.pack .binary64 (.finite (-sign) mantissa exponent hpos)) =
      (UnpackedFloat.unpack .binary64
        (UnpackedFloat.pack .binary64 (.finite sign mantissa exponent hpos))).neg
    rw [UnpackedFloat.pack, UnpackedFloat.pack]
    simp only
    split_ifs
    · exact unpack_packComponents_neg _ _ _
    · exact unpack_packComponents_neg _ _ _
    · exact unpack_packComponents_neg _ _ _

/-! ## Negation itself -/

theorem neg_neg_sign (sign : Sign) : - -sign = sign := by
  cases sign <;> rfl

theorem neg_neg_unpacked (unpacked : UnpackedFloat) : unpacked.neg.neg = unpacked := by
  cases unpacked with
  | notANumber => rfl
  | infinity sign | zero sign | finite sign mantissa exponent hpos =>
    simp only [UnpackedFloat.neg, neg_neg_sign]

theorem negated_twice (x : Float) : - -x = x := by
  apply eq_of_unpack_eq
  rw [unpack_neg, unpack_neg, neg_neg_unpacked]

theorem signed_neg (sign : Sign) (x : ℚ) : signed (-sign) x = -signed sign x := by
  cases sign
  · exact (neg_neg x).symm
  · rfl

theorem value_neg (x : Float) : value (-x) = -value x := by
  rw [value, value, unpack_neg]
  cases x.toModel.unpack with
  | notANumber | infinity sign | zero sign => exact neg_zero.symm
  | finite sign mantissa exponent hpos => exact signed_neg sign _

/-- A negated number is rounded to the negated float. -/
theorem Rounds.neg {x : ℚ} {y : Float} (hrounds : Rounds x y.toModel.unpack) :
    Rounds (-x) (-y).toModel.unpack := by
  rw [Rounds, abs_neg]
  rw [Rounds] at hrounds
  by_cases hx : |x| < overflowBound
  · rw [if_pos hx] at hrounds ⊢
    exact ⟨(isFinite_neg y).trans hrounds.1,
      (value_neg y).trans ((congrArg Neg.neg hrounds.2).trans (nearest_neg x).symm)⟩
  · rw [if_neg hx] at hrounds ⊢
    have hne : x ≠ 0 := by
      rintro rfl
      exact hx (abs_zero.trans_lt overflowBound_pos)
    rw [unpack_neg, hrounds]
    rcases hne.lt_or_gt with hneg | hpos
    · rw [if_pos hneg, if_neg (not_lt.mpr (neg_nonneg.mpr hneg.le))]
      rfl
    · rw [if_neg hpos.not_gt, if_pos (neg_neg_of_pos hpos)]
      rfl

/-! ## Negated operands -/

theorem neg_mul_sign (left right : Sign) : -left * right = -(left * right) := by
  cases left <;> cases right <;> rfl

theorem neg_div_sign (left right : Sign) : -left / right = -(left / right) := by
  cases left <;> cases right <;> rfl

theorem roundWithAccuracy_neg (sign : Sign) (mantissa : ℕ) (exponent : ℤ)
    (accuracy : Accuracy) :
    roundWithAccuracy .binary64 (-sign) mantissa exponent accuracy =
      (roundWithAccuracy .binary64 sign mantissa exponent accuracy).neg := by
  rw [roundWithAccuracy, roundWithAccuracy]
  simp only
  split_ifs <;> rfl

theorem mul_neg_unpacked (left right : UnpackedFloat) :
    UnpackedFloat.mul .binary64 left.neg right =
      (UnpackedFloat.mul .binary64 left right).neg := by
  cases left <;> cases right <;>
    simp only [UnpackedFloat.neg, UnpackedFloat.mul, neg_mul_sign, roundWithAccuracy_neg]

theorem div_neg_unpacked (left right : UnpackedFloat) :
    UnpackedFloat.div .binary64 left.neg right =
      (UnpackedFloat.div .binary64 left right).neg := by
  cases left <;> cases right <;>
    simp only [UnpackedFloat.neg, UnpackedFloat.div, neg_div_sign, roundWithAccuracy_neg]

theorem product_of_neg (x y : Float) : -x * y = -(x * y) := by
  apply eq_of_unpack_eq
  rw [unpack_mul, unpack_neg, unpack_neg, mul_neg_unpacked, unpack_pack_neg, unpack_mul]

theorem quotient_of_neg (x y : Float) : -x / y = -(x / y) := by
  apply eq_of_unpack_eq
  rw [unpack_div, unpack_neg, unpack_neg, div_neg_unpacked, unpack_pack_neg, unpack_div]

end TournamentScoring.Binary64
