import Mathlib
import TournamentScoring.Proofs.Binary64.Negation

/-!
# Sums of floats

A sum or difference of finite floats is the exact one, rounded once.  The operands are
brought to one exponent, where their mantissas add up as integers, and a difference is the
sum with a negated operand.
-/

namespace TournamentScoring.Binary64

open Float.Model Float.Model.UnpackedFloat

/-! ## Exact numbers -/

/-- A canonical number is its own nearest number. -/
theorem Canonical.nearest_self {mantissa : ℕ} {exponent : ℤ}
    (hcanonical : Canonical mantissa exponent) (hpos : 0 < mantissa) :
    nearest (mantissa * 2 ^ exponent) = mantissa * 2 ^ exponent := by
  have hplace : (mantissa : ℚ) * 2 ^ exponent =
      (mantissa : ℤ) * 2 ^ lastPlace (mantissa * 2 ^ exponent) := by
    rw [hcanonical.lastPlace_mul hpos, Int.cast_natCast]
  exact nearest_eq_self hplace

/-- A canonical number in range rounds to itself. -/
theorem rounds_assemble (sign : Sign) {mantissa : ℕ} {exponent : ℤ}
    (hcanonical : Canonical mantissa exponent) :
    Rounds (signed sign (mantissa * 2 ^ exponent))
      (Float.Model.pack (assemble sign mantissa exponent)).unpack := by
  rcases Nat.eq_zero_or_pos mantissa with rfl | hpos
  · rw [Nat.cast_zero, zero_mul, signed_zero]
    change Rounds 0 (Float.Model.pack (.zero sign)).unpack
    rw [unpack_pack (unpacked_zero sign)]
    exact rounds_zero sign
  · have hcast : (0 : ℚ) < mantissa := by exact_mod_cast hpos
    exact rounds_pack (mul_pos hcast (two_zpow_pos _)) sign hcanonical
      (hcanonical.nearest_self hpos).symm

/-! ## Sums and differences -/

theorem unpack_add (x y : Float) :
    (x + y).toModel.unpack = (Float.Model.pack (UnpackedFloat.add .binary64
      x.toModel.unpack y.toModel.unpack)).unpack := rfl

theorem unpack_sub (x y : Float) :
    (x - y).toModel.unpack = (Float.Model.pack (UnpackedFloat.sub .binary64
      x.toModel.unpack y.toModel.unpack)).unpack := rfl

/-- Moving to a smaller exponent does not change the number. -/
theorem apply_decreaseExponent (sign : Sign) (mantissa : ℕ) {exponent place : ℤ}
    (hle : place ≤ exponent) :
    (sign.apply (decreaseExponent mantissa exponent place).1 : ℚ) * 2 ^ place =
      signed sign (mantissa * 2 ^ exponent) := by
  obtain ⟨count, hcount⟩ := Int.eq_ofNat_of_zero_le (sub_nonneg.mpr hle)
  have hexponent : exponent = count + place := by omega
  have hmagnitude : ((mantissa <<< count : ℕ) : ℚ) * 2 ^ place =
      mantissa * 2 ^ exponent := by
    rw [Nat.shiftLeft_eq, hexponent, zpow_add₀ two_ne_zero, zpow_natCast]
    push_cast
    ring
  rw [decreaseExponent, hcount, Int.toNat_natCast]
  cases sign with
  | negative => rw [Sign.apply, signed, Int.cast_neg, Int.cast_natCast, neg_mul, hmagnitude]
  | positive => rw [Sign.apply, signed, Int.cast_natCast, hmagnitude]

theorem rounds_add_assemble (left right : Sign) {mantissa mantissa' : ℕ}
    {exponent exponent' : ℤ} (hcanonical : Canonical mantissa exponent)
    (hcanonical' : Canonical mantissa' exponent') :
    Rounds (signed left (mantissa * 2 ^ exponent) +
        signed right (mantissa' * 2 ^ exponent'))
      (Float.Model.pack (UnpackedFloat.add .binary64
        (assemble left mantissa exponent)
        (assemble right mantissa' exponent'))).unpack := by
  rcases Nat.eq_zero_or_pos mantissa with rfl | hpos
  · rcases Nat.eq_zero_or_pos mantissa' with rfl | hpos'
    · obtain ⟨sign, hadd⟩ : ∃ sign, UnpackedFloat.add .binary64 (assemble left 0 exponent)
          (assemble right 0 exponent') = .zero sign := by
        cases left <;> cases right <;> exact ⟨_, rfl⟩
      rw [hadd, Nat.cast_zero, zero_mul, zero_mul, signed_zero, signed_zero, add_zero,
        unpack_pack (unpacked_zero sign)]
      exact rounds_zero sign
    · have hadd : UnpackedFloat.add .binary64 (assemble left 0 exponent)
          (assemble right mantissa' exponent') = assemble right mantissa' exponent' := by
        rw [assemble_of_pos hpos']
        rfl
      rw [hadd, Nat.cast_zero, zero_mul, signed_zero, zero_add]
      exact rounds_assemble right hcanonical'
  · rcases Nat.eq_zero_or_pos mantissa' with rfl | hpos'
    · have hadd : UnpackedFloat.add .binary64 (assemble left mantissa exponent)
          (assemble right 0 exponent') = assemble left mantissa exponent := by
        rw [assemble_of_pos hpos]
        rfl
      rw [hadd, Nat.cast_zero, zero_mul, signed_zero, add_zero]
      exact rounds_assemble left hcanonical
    · rw [← apply_decreaseExponent left mantissa (min_le_left exponent exponent'),
        ← apply_decreaseExponent right mantissa' (min_le_right exponent exponent'),
        ← add_mul, ← Int.cast_add, assemble_of_pos hpos, assemble_of_pos hpos']
      exact rounds_normalize _ _ _

/-- A sum of finite floats is rounded once. -/
theorem rounds_add {x y : Float} (hx : x.isFinite = true) (hy : y.isFinite = true) :
    Rounds (value x + value y) (x + y).toModel.unpack := by
  obtain ⟨left, mantissa, exponent, hcanonical, -, hleft, hvalue⟩ := exists_unpack_eq hx
  obtain ⟨right, mantissa', exponent', hcanonical', -, hright, hvalue'⟩ :=
    exists_unpack_eq hy
  rw [unpack_add, hleft, hright, hvalue, hvalue']
  exact rounds_add_assemble left right hcanonical hcanonical'

theorem apply_neg (sign : Sign) (number : ℤ) : (-sign).apply number = -sign.apply number := by
  cases sign
  · exact (neg_neg number).symm
  · rfl

theorem sub_unpacked (left right : UnpackedFloat) :
    UnpackedFloat.sub .binary64 left right = UnpackedFloat.add .binary64 left right.neg := by
  cases left <;> cases right <;>
    simp only [UnpackedFloat.neg, UnpackedFloat.sub, UnpackedFloat.add, apply_neg, sub_eq_add_neg]

/-- A difference is the sum with the negated operand. -/
theorem difference_eq (x y : Float) : x - y = x + -y := by
  apply eq_of_unpack_eq
  rw [unpack_sub, unpack_add, unpack_neg, sub_unpacked]

theorem rounds_sub {x y : Float} (hx : x.isFinite = true) (hy : y.isFinite = true) :
    Rounds (value x - value y) (x - y).toModel.unpack := by
  rw [difference_eq, sub_eq_add_neg, ← value_neg]
  exact rounds_add hx ((isFinite_neg y).trans hy)

end TournamentScoring.Binary64
