import Mathlib
import TournamentScoring.Proofs.Binary64.Addition
import TournamentScoring.Proofs.Binary64.Order

/-!
# Whole numbers as floats

Whole numbers up to `2 ^ 53` are floats, so sums, differences and products of such
numbers are exact as long as the result is one as well.
-/

namespace TournamentScoring.Binary64

open Float.Model Float.Model.UnpackedFloat

/-! ## Equal numbers -/

theorem eq_of_value_eq_of_pos {x y : Float} (hx : x.isFinite = true)
    (hy : y.isFinite = true) (heq : value x = value y) (hpos : 0 < value x) : x = y := by
  obtain ⟨mantissa, exponent, hmantissa, hcanonical, hunpack, hvalue⟩ :=
    exists_unpack_eq_of_pos hx hpos
  obtain ⟨mantissa', exponent', hmantissa', hcanonical', hunpack', hvalue'⟩ :=
    exists_unpack_eq_of_pos hy (heq ▸ hpos)
  obtain ⟨rfl, rfl⟩ := hcanonical.eq_of_mul_eq hcanonical' hmantissa hmantissa'
    (hvalue ▸ hvalue' ▸ heq)
  exact eq_of_unpack_eq (hunpack.trans hunpack'.symm)

/-- No two floats have the same number, but for the two zeros. -/
theorem eq_of_value_eq {x y : Float} (hx : x.isFinite = true) (hy : y.isFinite = true)
    (heq : value x = value y) (hne : value x ≠ 0) : x = y := by
  rcases lt_or_gt_of_ne hne with hneg | hpos
  · have hnegated : -x = -y := by
      apply eq_of_value_eq_of_pos ((isFinite_neg x).trans hx) ((isFinite_neg y).trans hy)
      · rw [value_neg, value_neg, heq]
      · rw [value_neg]
        exact neg_pos.mpr hneg
    rw [← negated_twice x, hnegated, negated_twice]
  · exact eq_of_value_eq_of_pos hx hy heq hpos

/-! ## Whole numbers -/

/-- A float that is exactly this whole number. -/
structure IsWhole (x : Float) (number : ℤ) : Prop where
  isFinite : x.isFinite = true
  value_eq : value x = number

theorem nearest_natCast_of_le {number : ℕ} (hnumber : number ≤ 2 ^ 53) :
    nearest number = number := by
  rcases hnumber.lt_or_eq with hlt | rfl
  · exact nearest_natCast hlt
  · -- The bound itself has 54 digits, the last of which is a zero.
    have hcanonical : Canonical (2 ^ 52) 1 := ⟨by norm_num, by norm_num, .inl le_rfl⟩
    have hself := hcanonical.nearest_self (by norm_num)
    have hsplit : ((2 ^ 53 : ℕ) : ℚ) = (2 ^ 52 : ℕ) * 2 ^ (1 : ℤ) := by norm_num
    rw [hsplit, hself]

/-- Whole numbers up to `2 ^ 53` are floats, and they are in range. -/
theorem nearest_intCast {number : ℤ} (hnumber : |number| ≤ 2 ^ 53) :
    nearest number = number ∧ |(number : ℚ)| < overflowBound := by
  have hbound : number.natAbs ≤ 2 ^ 53 := by
    rw [Int.abs_eq_natAbs] at hnumber
    exact_mod_cast hnumber
  have hnearest := nearest_natCast_of_le hbound
  have hrange := natCast_lt_overflowBound hbound
  rcases Int.natAbs_eq number with hsign | hsign
  · rw [hsign, Int.cast_natCast]
    exact ⟨hnearest, hrange⟩
  · rw [hsign, Int.cast_neg, Int.cast_natCast, nearest_neg, hnearest, abs_neg]
    exact ⟨rfl, hrange⟩

/-- A result that is rounded once is exact where it is such a whole number. -/
theorem Rounds.isWhole {number : ℤ} {x : Float}
    (hrounds : Rounds number x.toModel.unpack) (hnumber : |number| ≤ 2 ^ 53) :
    IsWhole x number :=
  have ⟨hnearest, hrange⟩ := nearest_intCast hnumber
  ⟨hrounds.isFinite_iff.mpr hrange, hrounds.unpackedValue_eq hrange hnearest⟩

namespace IsWhole

variable {x y : Float} {number other : ℤ}

theorem neg (hx : IsWhole x number) : IsWhole (-x) (-number) :=
  ⟨(isFinite_neg x).trans hx.isFinite, by rw [value_neg, hx.value_eq, Int.cast_neg]⟩

theorem add (hx : IsWhole x number) (hy : IsWhole y other)
    (hsum : |number + other| ≤ 2 ^ 53) : IsWhole (x + y) (number + other) := by
  have hrounds := rounds_add hx.isFinite hy.isFinite
  rw [hx.value_eq, hy.value_eq, ← Int.cast_add] at hrounds
  exact hrounds.isWhole hsum

theorem sub (hx : IsWhole x number) (hy : IsWhole y other)
    (hdifference : |number - other| ≤ 2 ^ 53) : IsWhole (x - y) (number - other) := by
  have hrounds := rounds_sub hx.isFinite hy.isFinite
  rw [hx.value_eq, hy.value_eq, ← Int.cast_sub] at hrounds
  exact hrounds.isWhole hdifference

theorem mul (hx : IsWhole x number) (hy : IsWhole y other)
    (hproduct : |number * other| ≤ 2 ^ 53) : IsWhole (x * y) (number * other) := by
  have hrounds := rounds_mul hx.isFinite hy.isFinite
  rw [hx.value_eq, hy.value_eq, ← Int.cast_mul] at hrounds
  exact hrounds.isWhole hproduct

/-- A multiple divided by its factor. -/
theorem div_self_factor (hx : IsWhole x (number * other)) (hy : IsWhole y other)
    (hother : other ≠ 0) (hnumber : |number| ≤ 2 ^ 53) : IsWhole (x / y) number := by
  have hne : (other : ℚ) ≠ 0 := by exact_mod_cast hother
  have hrounds := rounds_div hx.isFinite hy.isFinite (by rwa [hy.value_eq])
  rw [hx.value_eq, hy.value_eq, Int.cast_mul, mul_div_cancel_right₀ _ hne] at hrounds
  exact hrounds.isWhole hnumber

/-- Floats that are the same whole number compare as equal. -/
theorem beq (hx : IsWhole x number) (hy : IsWhole y number) : (x == y) = true :=
  (beq_iff_value_eq hx.isFinite hy.isFinite).mpr (hx.value_eq.trans hy.value_eq.symm)

/-- Only zero has two floats. -/
theorem eq_of_ne_zero (hx : IsWhole x number) (hy : IsWhole y number)
    (hnumber : number ≠ 0) : x = y := by
  refine eq_of_value_eq hx.isFinite hy.isFinite (hx.value_eq.trans hy.value_eq.symm) ?_
  rw [hx.value_eq]
  exact_mod_cast hnumber

end IsWhole

theorem isWhole_toFloat (number : UInt32) : IsWhole number.toFloat number.toNat := by
  have hrounds := rounds_normalize number.toNat 0 .positive
  rw [zpow_zero, mul_one] at hrounds
  have hbound := number.toNat_lt
  exact Rounds.isWhole hrounds (abs_le.mpr ⟨by omega, by omega⟩)

theorem isWhole_zero : IsWhole 0.0 0 :=
  ⟨rfl, rfl⟩

theorem zero_le_iff_value {x : Float} (hx : x.isFinite = true) : 0.0 ≤ x ↔ 0 ≤ value x := by
  rw [le_iff_value_le isWhole_zero.isFinite hx, isWhole_zero.value_eq, Int.cast_zero]

theorem isWhole_one : IsWhole 1.0 1 :=
  have hone : standsFor 1 (1.0 : Float).toModel.unpack = true := by decide +kernel
  ⟨(isFinite_and_value_of_standsFor hone).1, by
    rw [(isFinite_and_value_of_standsFor hone).2, Nat.cast_one, Int.cast_one]⟩

end TournamentScoring.Binary64
