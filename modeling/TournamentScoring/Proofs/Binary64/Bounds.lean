import Mathlib
import TournamentScoring.Proofs.Binary64.WholeNumbers

/-!
# Bounds that rounding keeps

Rounding adds a small part of a number at most, and it does not leave a range between powers
of two.  At a large power of two a small summand is less than half of the last place, so a
sum that has come so far does not grow any more, however many summands follow.
-/

namespace TournamentScoring.Binary64

/-! ## What rounding adds -/

/-- Rounding adds at most half of a last place, a small part of a number that has all 53
digits. -/
theorem nearest_mul_le {x : ℚ} (hx : 1 ≤ x) : nearest x * 2 ^ 53 ≤ x * (2 ^ 53 + 1) := by
  have hpos : 0 < x := zero_lt_one.trans_le hx
  have hone : (2 : ℚ) ^ (0 : ℤ) ≤ |x| := by rwa [zpow_zero, abs_of_pos hpos]
  have hplace := le_lastPlace hone
  have hdigits := le_div_lastPlace hpos.ne' (by omega)
  have hhalf := nearestEven_le_add_half (x / 2 ^ lastPlace x)
  rw [abs_of_pos hpos] at hdigits
  calc nearest x * 2 ^ 53
      = nearestEven (x / 2 ^ lastPlace x) * 2 ^ 53 * 2 ^ lastPlace x := by
        rw [nearest]
        ring
    _ ≤ x / 2 ^ lastPlace x * (2 ^ 53 + 1) * 2 ^ lastPlace x := by
        refine mul_le_mul_of_nonneg_right ?_ (two_zpow_pos _).le
        linarith
    _ = x * (2 ^ 53 + 1) := by
        rw [mul_right_comm, div_mul_cancel₀ x (two_zpow_pos _).ne']

/-- A product of rounded factors is greater than that of the factors by a small part at most. -/
theorem nearest_mul_nearest_le {x y : ℚ} (hx : 1 ≤ x) (hy : 1 ≤ y) :
    nearest x * nearest y * (2 ^ 53) ^ 2 ≤ x * y * (2 ^ 53 + 1) ^ 2 := by
  have hnonneg : 0 ≤ nearest y := nearest_nonneg (zero_le_one.trans hy)
  have hpos : 0 ≤ x := zero_le_one.trans hx
  calc nearest x * nearest y * (2 ^ 53) ^ 2
      = nearest x * 2 ^ 53 * (nearest y * 2 ^ 53) := by ring
    _ ≤ x * (2 ^ 53 + 1) * (y * (2 ^ 53 + 1)) :=
        mul_le_mul (nearest_mul_le hx) (nearest_mul_le hy) (by positivity) (by positivity)
    _ = x * y * (2 ^ 53 + 1) ^ 2 := by ring

/-! ## Powers of two -/

theorem two_pow_eq (exponent : ℕ) :
    (2 : ℚ) ^ exponent = 2 ^ 52 * 2 ^ ((exponent : ℤ) - 52) := by
  rw [← zpow_natCast, ← zpow_natCast, ← zpow_add₀ two_ne_zero]
  congr 1
  push_cast
  ring

theorem nearest_two_pow (exponent : ℕ) : nearest (2 ^ exponent) = 2 ^ exponent := by
  have hcanonical : Canonical (2 ^ 52) ((exponent : ℤ) - 52) :=
    ⟨by norm_num, by omega, .inl le_rfl⟩
  have hself := hcanonical.nearest_self (by norm_num)
  rwa [Nat.cast_pow, Nat.cast_ofNat, ← two_pow_eq] at hself

theorem abs_nearest_le {x : ℚ} {exponent : ℕ} (hx : |x| ≤ 2 ^ exponent) :
    |nearest x| ≤ 2 ^ exponent := by
  obtain ⟨hlower, hupper⟩ := abs_le.mp hx
  apply abs_le.mpr
  constructor
  · calc -2 ^ exponent = nearest (-2 ^ exponent) := by rw [nearest_neg, nearest_two_pow]
      _ ≤ nearest x := nearest_mono hlower
  · calc nearest x ≤ nearest (2 ^ exponent) := nearest_mono hupper
      _ = 2 ^ exponent := nearest_two_pow exponent

/-- Less than half of the last place behind a power of two is lost. -/
theorem nearest_two_pow_add_le {exponent : ℕ} {small : ℚ} (hnonneg : 0 ≤ small)
    (hsmall : small < 2 ^ ((exponent : ℤ) - 53)) :
    nearest (2 ^ exponent + small) ≤ 2 ^ exponent := by
  have hpower : (0 : ℚ) < 2 ^ exponent := by positivity
  have hhalf : (2 : ℚ) ^ ((exponent : ℤ) - 52) = 2 ^ ((exponent : ℤ) - 53) * 2 := by
    rw [← zpow_add_one₀ two_ne_zero]
    congr 1
    ring
  have hplace : lastPlace (2 ^ exponent + small) = exponent - 52 := by
    have habs : |(2 : ℚ) ^ exponent + small| = 2 ^ exponent + small :=
      abs_of_nonneg (by linarith)
    have hlarge : (2 : ℚ) ^ (exponent : ℤ) ≤ |2 ^ exponent + small| := by
      rw [habs, zpow_natCast]
      linarith
    have hnext : |(2 : ℚ) ^ exponent + small| < 2 ^ ((exponent : ℤ) + 1) := by
      have hless : (2 : ℚ) ^ ((exponent : ℤ) - 53) ≤ 2 ^ (exponent : ℤ) :=
        zpow_le_zpow_right₀ one_le_two (by omega)
      rw [zpow_natCast] at hless
      rw [habs, zpow_add_one₀ two_ne_zero, zpow_natCast]
      linarith
    have hle := lastPlace_le (by omega) hnext
    have hge := le_lastPlace hlarge
    omega
  have hmantissa :
      nearestEven ((2 ^ exponent + small) / 2 ^ ((exponent : ℤ) - 52)) ≤ 2 ^ 52 := by
    apply nearestEven_le_of_lt
    rw [div_lt_iff₀ (two_zpow_pos _), two_pow_eq exponent, hhalf]
    push_cast
    linarith
  rw [nearest, hplace, two_pow_eq exponent]
  apply mul_two_zpow_le
  rw [← two_pow_eq]
  exact_mod_cast hmantissa

/-! ## Floats within a power of two -/

/-- A finite float that is not beyond a power of two on either side. -/
structure IsWithin (x : Float) (exponent : ℕ) : Prop where
  isFinite : x.isFinite = true
  abs_value_le : |value x| ≤ 2 ^ exponent

/-- A result whose rounding is within a power of two in range is within it. -/
theorem Rounds.isWithin {x : ℚ} {y : Float} {exponent : ℕ}
    (hrounds : Rounds x y.toModel.unpack) (hexponent : exponent ≤ 1023)
    (hnearest : |nearest x| ≤ 2 ^ exponent) : IsWithin y exponent := by
  have hrange : |nearest x| < rangeBound :=
    calc |nearest x| ≤ 2 ^ exponent := hnearest
      _ ≤ 2 ^ 1023 := pow_le_pow_right₀ one_le_two hexponent
      _ < 2 ^ 1024 := pow_lt_pow_right₀ one_lt_two (by norm_num)
  rw [Rounds, if_pos (abs_nearest_lt_iff.mp hrange)] at hrounds
  exact ⟨hrounds.1, by rw [value, hrounds.2]; exact hnearest⟩

theorem IsWhole.isWithin {x : Float} {number : ℤ} {exponent : ℕ} (hx : IsWhole x number)
    (hnumber : |number| ≤ 2 ^ exponent) : IsWithin x exponent := by
  refine ⟨hx.isFinite, ?_⟩
  rw [hx.value_eq]
  exact_mod_cast hnumber

namespace IsWithin

variable {x y : Float} {exponent other : ℕ}

theorem mul (hx : IsWithin x exponent) (hy : IsWithin y other)
    (hrange : exponent + other ≤ 1023) : IsWithin (x * y) (exponent + other) := by
  apply (rounds_mul hx.isFinite hy.isFinite).isWithin hrange
  apply abs_nearest_le
  rw [abs_mul, pow_add]
  exact mul_le_mul hx.abs_value_le hy.abs_value_le (abs_nonneg _) (by positivity)

theorem sub (hx : IsWithin x exponent) (hy : IsWithin y exponent)
    (hrange : exponent + 1 ≤ 1023) : IsWithin (x - y) (exponent + 1) := by
  apply (rounds_sub hx.isFinite hy.isFinite).isWithin hrange
  apply abs_nearest_le
  calc |value x - value y| ≤ |value x| + |value y| := abs_sub _ _
    _ ≤ 2 ^ exponent + 2 ^ exponent := add_le_add hx.abs_value_le hy.abs_value_le
    _ = 2 ^ (exponent + 1) := by rw [pow_succ, mul_two]

/-- A sum stays within a power of two if its summand is small enough to be lost there. -/
theorem add_small (hx : IsWithin x exponent) (hy : IsWithin y other)
    (hsmall : other + 53 < exponent) (hrange : exponent ≤ 1023) :
    IsWithin (x + y) exponent := by
  have hless : (2 : ℚ) ^ other < 2 ^ ((exponent : ℤ) - 53) := by
    rw [← zpow_natCast]
    exact zpow_lt_zpow_right₀ one_lt_two (by omega)
  have hlost : nearest (2 ^ exponent + 2 ^ other) ≤ 2 ^ exponent :=
    nearest_two_pow_add_le (by positivity) hless
  have hsum : |value x + value y| ≤ 2 ^ exponent + 2 ^ other :=
    (abs_add_le _ _).trans (add_le_add hx.abs_value_le hy.abs_value_le)
  obtain ⟨hlower, hupper⟩ := abs_le.mp hsum
  apply (rounds_add hx.isFinite hy.isFinite).isWithin hrange
  apply abs_le.mpr
  constructor
  · have hbelow := nearest_mono hlower
    rw [nearest_neg] at hbelow
    linarith
  · exact (nearest_mono hupper).trans hlost

end IsWithin

theorem isWithin_toFloat (number : UInt32) : IsWithin number.toFloat 32 := by
  apply (isWhole_toFloat number).isWithin
  have hbound := number.toNat_lt
  rw [Nat.abs_cast]
  omega

/-- What is added to the largest float is lost as well. -/
theorem isFinite_add_of_isWithin {x y : Float} {exponent : ℕ} (hx : x.isFinite = true)
    (hy : IsWithin y exponent) (hsmall : exponent < 970) : (x + y).isFinite = true := by
  have hhalf : (2 : ℚ) ^ exponent < 1 / 2 * 2 ^ (971 : ℤ) :=
    calc (2 : ℚ) ^ exponent < 2 ^ 970 := pow_lt_pow_right₀ one_lt_two hsmall
      _ = 1 / 2 * 2 ^ (971 : ℤ) := by
        rw [zpow_ofNat, pow_succ 2 970]
        generalize (2 : ℚ) ^ 970 = half
        ring
  apply (rounds_add hx hy.isFinite).isFinite_iff.mpr
  calc |value x + value y| ≤ |value x| + |value y| := abs_add_le _ _
    _ ≤ (2 ^ 53 - 1) * 2 ^ (971 : ℤ) + 2 ^ exponent :=
      add_le_add (abs_value_le hx) hy.abs_value_le
    _ < (2 ^ 53 - 1) * 2 ^ (971 : ℤ) + 1 / 2 * 2 ^ (971 : ℤ) := by gcongr
    _ = overflowBound := by
      rw [overflowBound_eq, ← add_mul]
      congr 1
      norm_num

end TournamentScoring.Binary64
