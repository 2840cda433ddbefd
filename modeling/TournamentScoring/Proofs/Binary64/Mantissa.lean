import TournamentScoring.Proofs.Binary64.Nearest
import Mathlib.Tactic.FieldSimp

/-!
# Rounded mantissas

The float model rounds by shifting a mantissa to the right, with one bit for the
first digit that is lost and one for all others.  The two bits say enough about
the exact number: at any shift, rounding the mantissa is rounding the number.
-/

namespace TournamentScoring.Binary64

open Float.Model Float.Model.UnpackedFloat

/-! ## Extended mantissas -/

/-- What the first lost digit stands for. -/
def half (digit : Bool) : ℚ :=
  if digit then 1 / 2 else 0

theorem half_nonneg (digit : Bool) : 0 ≤ half digit := by
  cases digit <;> norm_num [half]

theorem half_le (digit : Bool) : half digit ≤ 1 / 2 := by
  cases digit <;> norm_num [half]

theorem half_eq_zero_iff {digit : Bool} : half digit = 0 ↔ digit = false := by
  cases digit <;> norm_num [half]

/-- The extended mantissa is the number cut off after its first lost digit, and
the last bit tells whether that changed it. -/
def Extends (extended : ExtendedMantissa) (x : ℚ) : Prop :=
  ∃ rest : ℚ, x = extended.mantissa + half extended.roundBit + rest ∧
    0 ≤ rest ∧ rest < 1 / 2 ∧ (extended.stickyBit = true ↔ rest ≠ 0)

theorem Extends.mantissa_le {extended : ExtendedMantissa} {x : ℚ}
    (hextends : Extends extended x) : (extended.mantissa : ℚ) ≤ x := by
  obtain ⟨rest, hx, hnonneg, -, -⟩ := hextends
  linarith [half_nonneg extended.roundBit]

theorem Extends.lt_mantissa_add_one {extended : ExtendedMantissa} {x : ℚ}
    (hextends : Extends extended x) : x < extended.mantissa + 1 := by
  obtain ⟨rest, hx, -, hlt, -⟩ := hextends
  linarith [half_le extended.roundBit]

theorem extends_exact (mantissa : ℕ) :
    Extends (.ofMantissaAndAccuracy mantissa .exact) mantissa := by
  refine ⟨0, ?_, le_refl 0, by norm_num, ?_⟩
  · simp [ExtendedMantissa.ofMantissaAndAccuracy, half]
  · simp [ExtendedMantissa.ofMantissaAndAccuracy]

/-- The accuracy of a division is that of its remainder. -/
theorem extends_div (dividend : ℕ) {divisor : ℕ} (hdivisor : 0 < divisor) :
    Extends (.ofMantissaAndAccuracy (dividend / divisor)
      (accuracyOfFraction (dividend % divisor) divisor))
      ((dividend : ℚ) / divisor) := by
  have hpos : (0 : ℚ) < divisor := by exact_mod_cast hdivisor
  have hsplit : (dividend : ℚ) / divisor =
      (dividend / divisor : ℕ) + (dividend % divisor : ℕ) / divisor := by
    rw [div_eq_iff hpos.ne', add_mul, div_mul_cancel₀ _ hpos.ne']
    exact_mod_cast (Nat.div_add_mod' dividend divisor).symm
  have hlt : dividend % divisor < divisor := Nat.mod_lt _ hdivisor
  generalize dividend % divisor = remainder at hsplit hlt ⊢
  have hnonneg : (0 : ℚ) ≤ remainder / divisor := by positivity
  by_cases hzero : remainder = 0
  · subst hzero
    refine ⟨0, ?_, le_refl 0, by norm_num, ?_⟩
    · simpa [accuracyOfFraction, ExtendedMantissa.ofMantissaAndAccuracy, half]
        using hsplit
    · simp [accuracyOfFraction, ExtendedMantissa.ofMantissaAndAccuracy]
  rw [accuracyOfFraction, if_neg hzero, hsplit]
  rcases lt_trichotomy (2 * remainder) divisor with hcompare | hcompare | hcompare
  · rw [Nat.compare_eq_lt.mpr hcompare]
    refine ⟨remainder / divisor, ?_, hnonneg, ?_, ?_⟩
    · simp [ExtendedMantissa.ofMantissaAndAccuracy, half]
    · rw [div_lt_div_iff₀ hpos two_pos]
      exact_mod_cast (by omega : remainder * 2 < 1 * divisor)
    · simp [ExtendedMantissa.ofMantissaAndAccuracy, hzero, hdivisor.ne']
  · rw [Nat.compare_eq_eq.mpr hcompare]
    have hhalf : (remainder : ℚ) / divisor = 1 / 2 := by
      rw [div_eq_div_iff hpos.ne' two_ne_zero]
      exact_mod_cast (by omega : remainder * 2 = 1 * divisor)
    refine ⟨0, ?_, le_refl 0, by norm_num, ?_⟩
    · simp [ExtendedMantissa.ofMantissaAndAccuracy, half, hhalf]
    · simp [ExtendedMantissa.ofMantissaAndAccuracy]
  · rw [Nat.compare_eq_gt.mpr hcompare]
    have hhalf : (1 : ℚ) / 2 < remainder / divisor := by
      rw [div_lt_div_iff₀ two_pos hpos]
      exact_mod_cast (by omega : 1 * divisor < remainder * 2)
    have hone : (remainder : ℚ) / divisor < 1 := by
      rw [div_lt_one hpos]
      exact_mod_cast hlt
    refine ⟨remainder / divisor - 1 / 2, ?_, by linarith, by linarith, ?_⟩
    · simp [ExtendedMantissa.ofMantissaAndAccuracy, half]
    · exact iff_of_true rfl (sub_pos.mpr hhalf).ne'

/-- The digit that is lost last becomes the round bit. -/
theorem Extends.shiftRightOne {extended : ExtendedMantissa} {x : ℚ}
    (hextends : Extends extended x) : Extends extended.shiftRightOne (x / 2) := by
  obtain ⟨rest, hx, hnonneg, hlt, hsticky⟩ := hextends
  have hdigit := half_nonneg extended.roundBit
  have hparity : (extended.mantissa : ℚ) =
      (extended.mantissa / 2 : ℕ) * 2 + (extended.mantissa % 2 : ℕ) := by
    exact_mod_cast (Nat.div_add_mod' extended.mantissa 2).symm
  have hround : half (extended.mantissa % 2 != 0) =
      (extended.mantissa % 2 : ℕ) / 2 := by
    rcases Nat.mod_two_eq_zero_or_one extended.mantissa with heven | hodd
    · simp [heven, half]
    · simp [hodd, half]
  refine ⟨(half extended.roundBit + rest) / 2, ?_, by positivity, ?_, ?_⟩
  · rw [ExtendedMantissa.shiftRightOne, hround, hx, hparity]
    ring
  · linarith [half_le extended.roundBit]
  · have hzero : half extended.roundBit + rest = 0 ↔
        extended.roundBit = false ∧ rest = 0 := by
      rw [add_eq_zero_iff_of_nonneg hdigit hnonneg, half_eq_zero_iff]
    have hquotient : (half extended.roundBit + rest) / 2 = 0 ↔
        extended.roundBit = false ∧ rest = 0 := by
      rw [div_eq_iff two_ne_zero, zero_mul, hzero]
    rw [ExtendedMantissa.shiftRightOne, Bool.or_eq_true, hsticky, ne_eq, ne_eq,
      hquotient]
    cases extended.roundBit <;> simp

theorem Extends.shiftRight {extended : ExtendedMantissa} {x : ℚ}
    (hextends : Extends extended x) (count : ℕ) :
    Extends (extended >>> count) (x / 2 ^ count) := by
  induction count with
  | zero =>
    rw [pow_zero, div_one]
    exact hextends
  | succ count ih =>
    rw [pow_succ, ← div_div]
    exact ih.shiftRightOne

/-- The two bits are enough to round the exact number. -/
theorem Extends.roundedMantissa_eq {extended : ExtendedMantissa} {x : ℚ}
    (hextends : Extends extended x) :
    (extended.roundedMantissa : ℤ) = nearestEven x := by
  obtain ⟨rest, rfl, hnonneg, hlt, hsticky⟩ := hextends
  have hdigit := half_le extended.roundBit
  have hsplit : (extended.mantissa : ℚ) + half extended.roundBit + rest =
      ((extended.mantissa : ℤ) : ℚ) + (half extended.roundBit + rest) := by
    push_cast
    ring
  rw [hsplit, nearestEven_add
    (add_nonneg (half_nonneg extended.roundBit) hnonneg) (by linarith)]
  obtain ⟨mantissa, roundBit, stickyBit⟩ := extended
  cases roundBit with
  | false =>
    have hless : half false + rest < 1 / 2 := by simpa [half] using hlt
    rw [if_pos hless]
    cases stickyBit <;> rfl
  | true =>
    have hmore : ¬ half true + rest < 1 / 2 := by
      simpa [half] using hnonneg
    rw [if_neg hmore]
    cases stickyBit with
    | false =>
      have hrest : rest = 0 := by simpa using hsticky
      rw [if_pos (by simp [hrest, half])]
      simp [ExtendedMantissa.roundedMantissa, ExtendedMantissa.accuracy,
        Accuracy.roundToNearestEven]
    | true =>
      have hrest : rest ≠ 0 := by simpa using hsticky
      rw [if_neg (by simp [hrest, half])]
      simp [ExtendedMantissa.roundedMantissa, ExtendedMantissa.accuracy,
        Accuracy.roundToNearestEven]

end TournamentScoring.Binary64
