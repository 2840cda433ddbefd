import Mathlib
import TournamentScoring.Proofs.Binary64.WholeNumbers
import TournamentScoring.Proofs.Decimal.Rounding

/-!
# Rounding keeps the ranking

Rounding to places is a product, a rounding to a whole number and a quotient, and each
step rounds.  Each of them keeps the order, the infinities of an overflow included, and
treats a negated value as the negation of the value.  Whole numbers that the product does
not push past `2 ^ 53` come back unchanged.
-/

namespace TournamentScoring.Decimal

open Float.Model
open TournamentScoring.Binary64

/-! ## The nearest whole number -/

theorem round_le_round {x y : ℚ} (hle : x ≤ y) : round x ≤ round y := by
  rw [round_eq, round_eq]
  exact Int.floor_le_floor (by linarith)

theorem nearestAway_mono {x y : ℚ} (hle : x ≤ y) : nearestAway x ≤ nearestAway y := by
  rw [nearestAway, nearestAway]
  by_cases hx : x < 0
  · by_cases hy : y < 0
    · rw [if_pos hx, if_pos hy]
      exact neg_le_neg (round_le_round (neg_le_neg hle))
    · rw [if_pos hx, if_neg hy]
      -- A negative number and one that is not lie on both sides of zero.
      have hlow : round (0 : ℚ) ≤ round (-x) := round_le_round (neg_pos.mpr hx).le
      have hhigh : round (0 : ℚ) ≤ round y := round_le_round (not_lt.mp hy)
      rw [round_zero] at hlow hhigh
      omega
  · rw [if_neg hx, if_neg ((not_lt.mp hx).trans hle).not_gt]
    exact round_le_round hle

/-! ## Rounding to a whole number -/

theorem roundHalfAway_le {x y : Float} (hle : x ≤ y) : roundHalfAway x ≤ roundHalfAway y := by
  refine le_of_le_of_finite (fun hx => ?_) (fun hx hy hle => ?_) hle
  · rwa [roundHalfAway_of_infinity hx]
  · rw [le_iff_value_le (isFinite_roundHalfAway hx) (isFinite_roundHalfAway hy),
      value_roundHalfAway hx, value_roundHalfAway hy]
    exact_mod_cast nearestAway_mono ((le_iff_value_le hx hy).mp hle)

theorem roundHalfAway_neg (x : Float) : roundHalfAway (-x) = -roundHalfAway x := by
  rw [roundHalfAway, roundHalfAway, unpack_neg]
  cases x.toModel.unpack with
  | notANumber | infinity sign | zero sign => rfl
  | finite sign mantissa exponent hpos =>
    simp only [UnpackedFloat.neg]
    split
    · rfl
    · cases sign with
      | negative => exact (negated_twice _).symm
      | positive => rfl

theorem isWhole_roundHalfAway {x : Float} {number : ℤ} (hx : IsWhole x number) :
    IsWhole (roundHalfAway x) number where
  isFinite := isFinite_roundHalfAway hx.isFinite
  value_eq := by rw [value_roundHalfAway hx.isFinite, hx.value_eq, nearestAway_intCast]

/-! ## Rounding to places -/

section

variable {decimals : UInt32} (hdecimals : decimals.toNat ≤ 6)

include hdecimals

theorem isWhole_placesFactor : IsWhole (placesFactor decimals) (10 ^ decimals.toNat) where
  isFinite := (isFinite_and_value_placesFactor hdecimals).1
  value_eq := by
    rw [(isFinite_and_value_placesFactor hdecimals).2]
    push_cast
    rfl

theorem value_placesFactor_pos : 0 < value (placesFactor decimals) := by
  rw [(isFinite_and_value_placesFactor hdecimals).2]
  positivity

theorem roundTo_le_roundTo {x y : Float} (hx : x.isFinite = true) (hy : y.isFinite = true)
    (hle : x ≤ y) : roundTo x decimals ≤ roundTo y decimals := by
  have hfactor := (isWhole_placesFactor hdecimals).isFinite
  have hpos := value_placesFactor_pos hdecimals
  apply quotient_le_quotient hfactor hpos
  apply roundHalfAway_le
  exact product_le_product hx hy hfactor hpos.le hle

theorem isWhole_roundTo {x : Float} {number : ℤ} (hx : IsWhole x number)
    (hnumber : |number| * 10 ^ decimals.toNat ≤ 2 ^ 53) :
    IsWhole (roundTo x decimals) number := by
  have hfactor := isWhole_placesFactor hdecimals
  have hpos : (0 : ℤ) < 10 ^ decimals.toNat := by positivity
  have hproduct : |number * 10 ^ decimals.toNat| ≤ 2 ^ 53 := by
    rwa [abs_mul, abs_of_pos hpos]
  have hbound : |number| ≤ 2 ^ 53 :=
    (le_mul_of_one_le_right (abs_nonneg number) hpos).trans hnumber
  exact (isWhole_roundHalfAway (hx.mul hfactor hproduct)).div_self_factor hfactor hpos.ne'
    hbound

end

theorem roundTo_neg (x : Float) (decimals : UInt32) :
    roundTo (-x) decimals = -roundTo x decimals := by
  rw [roundTo, roundTo, product_of_neg, roundHalfAway_neg, quotient_of_neg]

theorem roundTo_zero_of_le_six :
    ∀ decimals : Fin 7, roundTo 0.0 (UInt32.ofNat decimals) = 0.0 := by
  decide +kernel

/-- Both zeros keep their sign. -/
theorem roundTo_of_isWhole_zero {decimals : UInt32} (hdecimals : decimals.toNat ≤ 6)
    {x : Float} (hx : IsWhole x 0) : roundTo x decimals = x := by
  have hzero : roundTo 0.0 decimals = 0.0 := by
    have hplaces := roundTo_zero_of_le_six ⟨decimals.toNat, Nat.lt_succ_of_le hdecimals⟩
    rwa [show UInt32.ofNat decimals.toNat = decimals from UInt32.ofNat_toNat] at hplaces
  rcases (beq_zero_iff x).mp (hx.beq isWhole_zero) with rfl | rfl
  · exact hzero
  · exact (roundTo_neg 0.0 decimals).trans (congrArg _ hzero)

theorem roundTo_of_isWhole {decimals : UInt32} (hdecimals : decimals.toNat ≤ 6)
    {x : Float} {number : ℤ} (hx : IsWhole x number)
    (hnumber : |number| * 10 ^ decimals.toNat ≤ 2 ^ 53) : roundTo x decimals = x := by
  rcases eq_or_ne number 0 with rfl | hne
  · exact roundTo_of_isWhole_zero hdecimals hx
  · exact (isWhole_roundTo hdecimals hx hnumber).eq_of_ne_zero hx hne

/-- Up to six places, rounding keeps the order of finite values, also where it overflows.
It is odd, and it leaves whole numbers alone that have at most `2 ^ 53` units in the last
place. -/
theorem roundTo_preserves_ranking (decimals : UInt32) (hdecimals : decimals.toNat ≤ 6) :
    (∀ x y : Float, x.isFinite = true → y.isFinite = true → x ≤ y →
      roundTo x decimals ≤ roundTo y decimals) ∧
    (∀ x : Float, roundTo (-x) decimals = -roundTo x decimals) ∧
    ∀ (x : Float) (number : ℤ), IsWhole x number →
      |number| * 10 ^ decimals.toNat ≤ 2 ^ 53 → roundTo x decimals = x := by
  refine ⟨?_, fun x => roundTo_neg x decimals, ?_⟩
  · intro x y hx hy hle
    exact roundTo_le_roundTo hdecimals hx hy hle
  · intro x number hx hnumber
    exact roundTo_of_isWhole hdecimals hx hnumber

/-- The largest finite float. -/
def largestFinite : Float :=
  .ofBits 0x7FEFFFFFFFFFFFFF

/-- With two places the largest float overflows, and is still above all others; the last
whole number of fourteen digits below the bound stays as it is. -/
theorem two_places_preserve_ranking :
    (2 : UInt32).toNat ≤ 6 ∧
      roundTo 2.675 2 ≤ roundTo largestFinite 2 ∧
      (roundTo largestFinite 2).isFinite = false ∧
      roundTo (-2.675) 2 = -roundTo 2.675 2 ∧
      roundTo (Float.ofNat 90071992547409) 2 = Float.ofNat 90071992547409 :=
  have hdecimals : (2 : UInt32).toNat ≤ 6 := by decide
  have hwhole : IsWhole (Float.ofNat 90071992547409) (90071992547409 : ℕ) :=
    have hbound : 90071992547409 < 2 ^ 53 := by decide
    have ⟨hfinite, hvalue⟩ := isFinite_and_value_ofNat hbound
    ⟨hfinite, by rw [hvalue, Int.cast_natCast]⟩
  have ⟨horder, hodd, hkept⟩ := roundTo_preserves_ranking 2 hdecimals
  ⟨hdecimals,
    horder 2.675 largestFinite (by decide +kernel) (by decide +kernel) (by decide +kernel),
    by decide +kernel, hodd 2.675, hkept _ _ hwhole (by decide)⟩

end TournamentScoring.Decimal
