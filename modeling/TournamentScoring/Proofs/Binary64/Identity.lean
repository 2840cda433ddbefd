import Mathlib
import TournamentScoring.Proofs.Binary64.Rounding
import TournamentScoring.Proofs.Binary64.Arithmetic

/-!
# The float that a number rounds to

A canonical mantissa and exponent are determined by their number, and the bits of
a float by what it unpacks to.  So a float is known from the numbers that round
to it: those up to half a last place away, the middle included where the
mantissa is even.
-/

namespace TournamentScoring.Binary64

open Float.Model Float.Model.UnpackedFloat

/-! ## Last places -/

theorem lastPlace_eq {x : ℚ} {exponent : ℤ} (hpos : 0 < x)
    (hleast : -1074 ≤ exponent)
    (hlow : 2 ^ 52 ≤ x / 2 ^ exponent ∨ exponent = -1074)
    (hhigh : x / 2 ^ exponent < 2 ^ 53) : lastPlace x = exponent := by
  have hbelow : Int.log 2 x < exponent + 53 := by
    rw [div_lt_iff₀ (two_zpow_pos _)] at hhigh
    apply (Int.lt_zpow_iff_log_lt one_lt_two hpos).mp
    calc x < 2 ^ 53 * 2 ^ exponent := hhigh
      _ = 2 ^ (exponent + 53) := by
          rw [zpow_add₀ two_ne_zero, mul_comm]
          norm_num
  rw [lastPlace, abs_of_pos hpos]
  rcases hlow with hlow | rfl
  · have habove : exponent + 52 ≤ Int.log 2 x := by
      rw [le_div_iff₀ (two_zpow_pos _)] at hlow
      apply (Int.zpow_le_iff_le_log one_lt_two hpos).mp
      calc (2 : ℚ) ^ (exponent + 52) = 2 ^ 52 * 2 ^ exponent := by
            rw [zpow_add₀ two_ne_zero, mul_comm]
            norm_num
        _ ≤ x := hlow
    omega
  · omega

theorem Canonical.two_pow_le_or {mantissa : ℕ} {exponent : ℤ}
    (hcanonical : Canonical mantissa exponent) :
    (2 : ℚ) ^ 52 ≤ mantissa ∨ exponent = -1074 :=
  hcanonical.normal.imp_left fun hle => by exact_mod_cast hle

theorem Canonical.succ_le {mantissa : ℕ} {exponent : ℤ}
    (hcanonical : Canonical mantissa exponent) : (mantissa : ℚ) + 1 ≤ 2 ^ 53 := by
  exact_mod_cast hcanonical.mantissa_lt

theorem Canonical.lastPlace_mul {mantissa : ℕ} {exponent : ℤ}
    (hcanonical : Canonical mantissa exponent) (hpos : 0 < mantissa) :
    lastPlace (mantissa * 2 ^ exponent) = exponent := by
  have hcast : (0 : ℚ) < mantissa := by exact_mod_cast hpos
  have hdiv : (mantissa : ℚ) * 2 ^ exponent / 2 ^ exponent = mantissa :=
    mul_div_cancel_right₀ _ (two_zpow_pos _).ne'
  apply lastPlace_eq (mul_pos hcast (two_zpow_pos _)) hcanonical.exponent_ge
  · rw [hdiv]
    exact hcanonical.two_pow_le_or
  · rw [hdiv]
    linarith [hcanonical.succ_le]

theorem Canonical.eq_of_mul_eq {mantissa mantissa' : ℕ} {exponent exponent' : ℤ}
    (hcanonical : Canonical mantissa exponent)
    (hcanonical' : Canonical mantissa' exponent') (hpos : 0 < mantissa)
    (hpos' : 0 < mantissa')
    (heq : (mantissa : ℚ) * 2 ^ exponent = mantissa' * 2 ^ exponent') :
    mantissa = mantissa' ∧ exponent = exponent' := by
  have hexponent : exponent = exponent' := by
    rw [← hcanonical.lastPlace_mul hpos, ← hcanonical'.lastPlace_mul hpos', heq]
  subst hexponent
  have hmantissa : (mantissa : ℚ) = mantissa' :=
    mul_right_cancel₀ (two_zpow_pos _).ne' heq
  exact ⟨by exact_mod_cast hmantissa, rfl⟩

/-! ## The numbers around a float -/

/-- Up to half a last place away, where the middle is taken if it is allowed. -/
theorem nearestEven_eq {x : ℚ} {whole : ℤ} (hlow : (whole : ℚ) - 1 / 2 ≤ x)
    (hhigh : x ≤ whole + 1 / 2)
    (htie : whole % 2 = 0 ∨ (whole : ℚ) - 1 / 2 < x ∧ x < whole + 1 / 2) :
    nearestEven x = whole := by
  rcases htie with heven | ⟨hlow, hhigh⟩
  · rcases hlow.lt_or_eq with hlow | hlow
    · rcases hhigh.lt_or_eq with hhigh | hhigh
      · exact le_antisymm (nearestEven_le_of_lt hhigh) (le_nearestEven_of_lt hlow)
      · rw [hhigh, nearestEven_add (by norm_num) (by norm_num), if_neg (by norm_num),
          if_pos rfl, heven, add_zero]
    · have hsplit : x = ((whole - 1 : ℤ) : ℚ) + 1 / 2 := by
        rw [← hlow]
        push_cast
        ring
      rw [hsplit, nearestEven_add (by norm_num) (by norm_num), if_neg (by norm_num),
        if_pos rfl]
      omega
  · exact le_antisymm (nearestEven_le_of_lt hhigh) (le_nearestEven_of_lt hlow)

/-- Where two floats are equally far apart below and above, the numbers that
round to the one between them reach half of that distance. -/
theorem Canonical.nearest_eq {x : ℚ} {mantissa : ℕ} {exponent : ℤ}
    (hcanonical : Canonical mantissa exponent) (hpos : 0 < mantissa)
    (hlow : (mantissa : ℚ) - 1 / 2 ≤ x / 2 ^ exponent)
    (hhigh : x / 2 ^ exponent ≤ mantissa + 1 / 2)
    (htie : mantissa % 2 = 0 ∨ (mantissa : ℚ) - 1 / 2 < x / 2 ^ exponent ∧
      x / 2 ^ exponent < mantissa + 1 / 2)
    (hgap : (mantissa : ℚ) ≤ x / 2 ^ exponent ∨ 2 ^ 52 < mantissa ∨
      exponent = -1074) : nearest x = mantissa * 2 ^ exponent := by
  have hcast : (1 : ℚ) ≤ mantissa := by exact_mod_cast hpos
  have hquotient : 0 < x / 2 ^ exponent := by linarith
  have hplace : lastPlace x = exponent := by
    apply lastPlace_eq
    · rw [← div_mul_cancel₀ x (two_zpow_pos exponent).ne']
      exact mul_pos hquotient (two_zpow_pos _)
    · exact hcanonical.exponent_ge
    · rcases hgap with habove | hmore | hleast
      · exact hcanonical.two_pow_le_or.imp_left habove.trans'
      · have hsucc : (2 : ℚ) ^ 52 + 1 ≤ mantissa := by exact_mod_cast hmore
        left
        linarith
      · exact .inr hleast
    · linarith [hcanonical.succ_le]
  have hrounded : nearestEven (x / 2 ^ exponent) = (mantissa : ℤ) := by
    apply nearestEven_eq
    · exact_mod_cast hlow
    · exact_mod_cast hhigh
    · exact htie.imp (by omega) (by exact_mod_cast id)
  rw [nearest, hplace, hrounded, Int.cast_natCast]

/-- Below a power of two the floats are twice as dense, so the numbers that round
to it from below reach a quarter of the last place. -/
theorem nearest_eq_of_lt_two_pow {x : ℚ} {exponent : ℤ}
    (hexponent : -1074 < exponent)
    (hlow : (2 : ℚ) ^ 52 - 1 / 4 ≤ x / 2 ^ exponent)
    (hhigh : x / 2 ^ exponent < 2 ^ 52) : nearest x = 2 ^ 52 * 2 ^ exponent := by
  have hsplit : (2 : ℚ) ^ exponent = 2 * 2 ^ (exponent - 1) := by
    rw [zpow_sub_one₀ two_ne_zero]
    ring
  have hdouble : x / 2 ^ (exponent - 1) = x / 2 ^ exponent * 2 := by
    rw [hsplit]
    have hne := (two_zpow_pos (exponent - 1)).ne'
    field_simp
  have hplace : lastPlace x = exponent - 1 := by
    apply lastPlace_eq
    · rw [← div_mul_cancel₀ x (two_zpow_pos exponent).ne']
      exact mul_pos (by linarith) (two_zpow_pos _)
    · omega
    · left
      rw [hdouble]
      linarith
    · rw [hdouble]
      linarith
  have hrounded : nearestEven (x / 2 ^ (exponent - 1)) = 2 ^ 53 := by
    apply nearestEven_eq
    · rw [hdouble]
      push_cast
      linarith
    · rw [hdouble]
      push_cast
      linarith
    · exact .inl (by norm_num)
  rw [nearest, hplace, hrounded, hsplit]
  push_cast
  ring

/-! ## Bits -/

theorem eq_of_unpack_eq {x y : Float} (hunpack : x.toModel.unpack = y.toModel.unpack) :
    x = y := by
  obtain ⟨⟨bits, hvalid⟩⟩ := x
  obtain ⟨⟨bits', hvalid'⟩⟩ := y
  have hbits : bits.toBitVec = bits'.toBitVec :=
    (unpack_inj_of_valid hvalid hvalid').mp hunpack
  obtain rfl : bits = bits' := UInt64.toBitVec_inj.mp hbits
  rfl

/-- Comparison does not tell the zeros apart, and nothing else equals them. -/
theorem beq_zero_iff (x : Float) : (x == 0.0) = true ↔ x = 0.0 ∨ x = -0.0 := by
  have hcompare : (x == 0.0) = x.toModel.unpack.beq (.zero .positive) := rfl
  constructor
  · intro hbeq
    rw [hcompare] at hbeq
    cases hunpack : x.toModel.unpack with
    | zero sign =>
      cases sign with
      | positive => exact .inl (eq_of_unpack_eq hunpack)
      | negative => exact .inr (eq_of_unpack_eq hunpack)
    | notANumber =>
      rw [hunpack] at hbeq
      cases hbeq
    | infinity sign | finite sign mantissa exponent hpos =>
      rw [hunpack] at hbeq
      cases sign <;> cases hbeq
  · rintro (rfl | rfl) <;> rfl

/-- A finite float is below zero where its number is; the negative zero is not. -/
theorem lt_zero_iff {x : Float} (hx : x.isFinite = true) : x < 0.0 ↔ value x < 0 := by
  have hless : x < 0.0 ↔ x.toModel.unpack.lt (.zero .positive) = true := decide_eq_true_iff
  rw [isFinite_eq] at hx
  rw [hless, value]
  cases hunpack : x.toModel.unpack with
  | notANumber | infinity sign =>
    rw [hunpack] at hx
    cases hx
  | zero sign => exact iff_of_false Bool.false_ne_true (lt_irrefl 0)
  | finite sign mantissa exponent hpos =>
    have hmagnitude : (0 : ℚ) < mantissa * 2 ^ exponent :=
      mul_pos (Nat.cast_pos.mpr hpos) (two_zpow_pos _)
    cases sign with
    | negative => exact iff_of_true rfl (neg_neg_of_pos hmagnitude)
    | positive => exact iff_of_false Bool.false_ne_true hmagnitude.le.not_gt

/-- What rounds to a float is in range. -/
theorem Canonical.abs_lt_overflowBound {x : ℚ} {mantissa : ℕ} {exponent : ℤ}
    (hcanonical : Canonical mantissa exponent) (hexponent : exponent ≤ 971)
    (hnearest : nearest x = mantissa * 2 ^ exponent) : |x| < overflowBound := by
  have hnonneg : (0 : ℚ) ≤ mantissa * 2 ^ exponent :=
    mul_nonneg (Nat.cast_nonneg _) (two_zpow_pos _).le
  rw [← abs_nearest_lt_iff, hnearest, abs_of_nonneg hnonneg]
  exact hcanonical.exponent_le_iff.mp hexponent

theorem unpack_eq_of_rounds {x : ℚ} {y : Float} {mantissa : ℕ} {exponent : ℤ}
    (hrounds : Rounds x y.toModel.unpack) (hcanonical : Canonical mantissa exponent)
    (hexponent : exponent ≤ 971) (hpos : 0 < mantissa)
    (hnearest : nearest x = mantissa * 2 ^ exponent) :
    y.toModel.unpack = assemble .positive mantissa exponent := by
  have hcast : (0 : ℚ) < mantissa := by exact_mod_cast hpos
  have hnumber : 0 < (mantissa : ℚ) * 2 ^ exponent := mul_pos hcast (two_zpow_pos _)
  rw [Rounds, if_pos (hcanonical.abs_lt_overflowBound hexponent hnearest)] at hrounds
  obtain ⟨hfinite, hvalue⟩ := hrounds
  obtain ⟨sign, mantissa', exponent', hcanonical', -, hunpack, hvalue'⟩ :=
    exists_unpack_eq hfinite
  have heq : signed sign (mantissa' * 2 ^ exponent') = mantissa * 2 ^ exponent := by
    rw [← hvalue', value, hvalue, hnearest]
  have hnonneg : (0 : ℚ) ≤ mantissa' * 2 ^ exponent' :=
    mul_nonneg (Nat.cast_nonneg _) (two_zpow_pos _).le
  cases sign with
  | negative =>
    change -(_ : ℚ) = _ at heq
    linarith
  | positive =>
    have hpos' : 0 < mantissa' := by
      apply Nat.pos_of_ne_zero
      rintro rfl
      rw [signed, Nat.cast_zero, zero_mul] at heq
      exact hnumber.ne heq
    obtain ⟨rfl, rfl⟩ := hcanonical'.eq_of_mul_eq hcanonical hpos' hpos heq
    exact hunpack

end TournamentScoring.Binary64
