import Mathlib.Algebra.Order.Floor.Ring
import Mathlib.Data.Int.Log
import Mathlib.Data.Rat.Floor
import Mathlib.Tactic.Linarith
import Mathlib.Tactic.NormNum
import Mathlib.Tactic.Positivity
import Mathlib.Tactic.Ring

/-!
# Rounding of rational numbers to binary64

`nearest x` is the nearest multiple of the last place at `x`, ties to even.  The
last place depends on the magnitude of `x` alone and is bounded from below, but
not from above: how large an exponent may become is a matter of packing.
-/

namespace TournamentScoring.Binary64

/-! ## Powers of two -/

theorem two_zpow_pos (exponent : ℤ) : (0 : ℚ) < 2 ^ exponent :=
  zpow_pos two_pos exponent

theorem mul_two_zpow_le {x y : ℚ} (hle : x ≤ y) (exponent : ℤ) :
    x * 2 ^ exponent ≤ y * 2 ^ exponent :=
  mul_le_mul_of_nonneg_right hle (two_zpow_pos exponent).le

theorem mul_two_zpow_lt {x y : ℚ} (hlt : x < y) (exponent : ℤ) :
    x * 2 ^ exponent < y * 2 ^ exponent :=
  mul_lt_mul_of_pos_right hlt (two_zpow_pos exponent)

/-! ## To whole numbers -/

/-- The nearest whole number, ties to even. -/
def nearestEven (x : ℚ) : ℤ :=
  if x - ⌊x⌋ < 1 / 2 then ⌊x⌋
  else if x - ⌊x⌋ = 1 / 2 then ⌊x⌋ + ⌊x⌋ % 2
  else ⌊x⌋ + 1

/-- The nearest whole number of a number given as a whole number and the rest. -/
theorem nearestEven_add {whole : ℤ} {rest : ℚ} (hzero : 0 ≤ rest)
    (hone : rest < 1) :
    nearestEven (whole + rest) =
      if rest < 1 / 2 then whole
      else if rest = 1 / 2 then whole + whole % 2
      else whole + 1 := by
  have hfloor : ⌊(whole : ℚ) + rest⌋ = whole := by
    rw [Int.floor_intCast_add, Int.floor_eq_zero_iff.mpr ⟨hzero, hone⟩, add_zero]
  rw [nearestEven, hfloor, add_sub_cancel_left]

theorem nearestEven_intCast (whole : ℤ) : nearestEven whole = whole := by
  have h := @nearestEven_add whole 0 (le_refl 0) zero_lt_one
  simpa using h

/-- Rounding goes down by less than a half at ties, and never by more. -/
theorem nearestEven_le_of_lt {x : ℚ} {whole : ℤ} (hx : x < whole + 1 / 2) :
    nearestEven x ≤ whole := by
  have hfloor := Int.floor_le x
  by_cases hlt : ⌊x⌋ < whole
  · have hle : ⌊x⌋ + 1 ≤ whole := hlt
    unfold nearestEven
    split_ifs <;> omega
  · have heq : whole ≤ ⌊x⌋ := not_lt.mp hlt
    have hcast : (whole : ℚ) ≤ ⌊x⌋ := by exact_mod_cast heq
    have hrest : x - ⌊x⌋ < 1 / 2 := by linarith
    have hback : ⌊x⌋ ≤ whole := by
      have hlt : (⌊x⌋ : ℚ) < whole + 1 := by linarith
      exact Int.lt_add_one_iff.mp (by exact_mod_cast hlt)
    rw [nearestEven, if_pos hrest]
    exact hback

theorem le_nearestEven_of_lt {x : ℚ} {whole : ℤ} (hx : (whole : ℚ) - 1 / 2 < x) :
    whole ≤ nearestEven x := by
  have hfloor := Int.lt_floor_add_one x
  by_cases hlt : ⌊x⌋ < whole
  · have hle : ⌊x⌋ + 1 ≤ whole := hlt
    have hcast : (⌊x⌋ : ℚ) + 1 ≤ whole := by exact_mod_cast hle
    have hrest : 1 / 2 < x - ⌊x⌋ := by linarith
    have hback : whole ≤ ⌊x⌋ + 1 := by
      have hlt : (whole : ℚ) < ⌊x⌋ + 1 + 1 := by linarith
      exact Int.lt_add_one_iff.mp (by exact_mod_cast hlt)
    rw [nearestEven, if_neg hrest.not_gt, if_neg hrest.ne']
    exact hback
  · have heq : whole ≤ ⌊x⌋ := not_lt.mp hlt
    unfold nearestEven
    split_ifs <;> omega

theorem nearestEven_le_add_half (x : ℚ) : nearestEven x ≤ x + 1 / 2 := by
  by_contra hmore
  have hless : x < (nearestEven x - 1 : ℤ) + 1 / 2 := by
    push_cast
    linarith [not_le.mp hmore]
  have hle := nearestEven_le_of_lt hless
  omega

theorem nearestEven_neg (x : ℚ) : nearestEven (-x) = -nearestEven x := by
  have hzero : 0 ≤ x - ⌊x⌋ := sub_nonneg.mpr (Int.floor_le x)
  have hone : x - ⌊x⌋ < 1 := by linarith [Int.lt_floor_add_one x]
  by_cases hwhole : x - ⌊x⌋ = 0
  · have hx : x = (⌊x⌋ : ℤ) := by linarith
    rw [hx, ← Int.cast_neg, nearestEven_intCast, nearestEven_intCast]
  · have hpos : 0 < x - ⌊x⌋ := lt_of_le_of_ne hzero (Ne.symm hwhole)
    have hsplit : -x = ((-⌊x⌋ - 1 : ℤ) : ℚ) + (1 - (x - ⌊x⌋)) := by
      push_cast
      ring
    rw [hsplit, nearestEven_add (by linarith) (by linarith), nearestEven]
    -- The rests of `x` and `-x` add up to one, so they meet at the tie.
    rcases lt_trichotomy (x - ⌊x⌋) (1 / 2) with hlt | htie | hgt
    · rw [if_neg (by linarith), if_neg (by linarith), if_pos hlt]
      omega
    · rw [if_neg (by linarith), if_pos (by linarith), if_neg (by linarith),
        if_pos htie]
      omega
    · rw [if_pos (by linarith), if_neg hgt.not_gt, if_neg hgt.ne']
      omega

/-! ## To the last place -/

/-- The exponent of the last place of the numbers about as large as `x`. -/
def lastPlace (x : ℚ) : ℤ :=
  max (Int.log 2 |x| - 52) (-1074)

/-- The nearest number with 53 digits from its last place on, ties to even. -/
def nearest (x : ℚ) : ℚ :=
  nearestEven (x / 2 ^ lastPlace x) * 2 ^ lastPlace x

theorem lastPlace_neg (x : ℚ) : lastPlace (-x) = lastPlace x := by
  rw [lastPlace, abs_neg, lastPlace]

theorem nearest_neg (x : ℚ) : nearest (-x) = -nearest x := by
  rw [nearest, lastPlace_neg, neg_div, nearestEven_neg, nearest]
  push_cast
  ring

theorem nearest_zero : nearest 0 = 0 := by
  have hzero : nearestEven 0 = 0 := by
    simpa using nearestEven_intCast 0
  rw [nearest, zero_div, hzero]
  simp

/-- A magnitude is less than 53 digits long from its last place on. -/
theorem div_lastPlace_lt {x : ℚ} : |x| / 2 ^ lastPlace x < 2 ^ 53 := by
  rw [div_lt_iff₀ (two_zpow_pos _)]
  have hlog : |x| < 2 ^ (Int.log 2 |x| + 1) :=
    Int.lt_zpow_succ_log_self one_lt_two |x|
  have hle : Int.log 2 |x| + 1 ≤ 53 + lastPlace x := by
    unfold lastPlace
    omega
  calc |x| < 2 ^ (Int.log 2 |x| + 1) := hlog
    _ ≤ 2 ^ (53 + lastPlace x) := zpow_le_zpow_right₀ one_le_two hle
    _ = 2 ^ 53 * 2 ^ lastPlace x := by rw [zpow_add₀ two_ne_zero]; norm_num

/-- Above the least last place, a number has all 53 digits. -/
theorem le_div_lastPlace {x : ℚ} (hx : x ≠ 0) (hplace : -1074 < lastPlace x) :
    2 ^ 52 ≤ |x| / 2 ^ lastPlace x := by
  rw [le_div_iff₀ (two_zpow_pos _)]
  have hlog : (2 : ℚ) ^ Int.log 2 |x| ≤ |x| :=
    Int.zpow_log_le_self one_lt_two (abs_pos.mpr hx)
  have heq : Int.log 2 |x| = 52 + lastPlace x := by
    unfold lastPlace at hplace ⊢
    omega
  calc (2 : ℚ) ^ 52 * 2 ^ lastPlace x = 2 ^ (52 + lastPlace x) := by
        rw [zpow_add₀ two_ne_zero]; norm_num
    _ = 2 ^ Int.log 2 |x| := by rw [heq]
    _ ≤ |x| := hlog

/-! ## Range -/

/-- No finite number is as large as this. -/
def rangeBound : ℚ :=
  2 ^ 1024

/-- The least magnitude that rounds out of range: the middle between the largest
finite number and the next power of two. -/
def overflowBound : ℚ :=
  2 ^ 1024 - 2 ^ 970

theorem rangeBound_eq : rangeBound = 2 ^ 53 * 2 ^ (971 : ℤ) := by
  have hcast : (2 : ℚ) ^ (971 : ℤ) = 2 ^ 971 := zpow_natCast 2 971
  rw [rangeBound, hcast, ← pow_add]

theorem overflowBound_eq :
    overflowBound = (2 ^ 53 - 1 / 2) * 2 ^ (971 : ℤ) := by
  have hhalf : (2 : ℚ) ^ (971 : ℤ) = 2 ^ 970 * 2 :=
    (zpow_natCast 2 971).trans (pow_succ 2 970)
  have hrange : (2 : ℚ) ^ 1024 = 2 ^ 53 * 2 ^ (971 : ℤ) := rangeBound_eq
  rw [overflowBound, hrange, sub_mul, hhalf]
  generalize (2 : ℚ) ^ 970 = half
  ring

theorem overflowBound_lt_rangeBound : overflowBound < rangeBound := by
  rw [overflowBound_eq, rangeBound_eq]
  exact mul_two_zpow_lt (by norm_num) 971

theorem overflowBound_pos : 0 < overflowBound := by
  rw [overflowBound_eq]
  exact mul_pos (by norm_num) (two_zpow_pos 971)

theorem mul_lt_rangeBound {mantissa : ℚ} {exponent : ℤ}
    (hmantissa : mantissa < 2 ^ 53) (hexponent : exponent ≤ 971) :
    mantissa * 2 ^ exponent < rangeBound := by
  rw [rangeBound_eq]
  calc mantissa * 2 ^ exponent < 2 ^ 53 * 2 ^ exponent :=
        mul_two_zpow_lt hmantissa exponent
    _ ≤ 2 ^ 53 * 2 ^ (971 : ℤ) :=
        mul_le_mul_of_nonneg_left (zpow_le_zpow_right₀ one_le_two hexponent)
          (by positivity)

theorem rangeBound_le_mul {mantissa : ℚ} {exponent : ℤ}
    (hmantissa : 2 ^ 52 ≤ mantissa) (hexponent : 971 < exponent) :
    rangeBound ≤ mantissa * 2 ^ exponent := by
  have hdouble : (2 : ℚ) ^ (972 : ℤ) = 2 ^ (971 : ℤ) * 2 :=
    zpow_add_one₀ two_ne_zero 971
  rw [rangeBound_eq]
  calc (2 : ℚ) ^ 53 * 2 ^ (971 : ℤ) = 2 ^ 52 * 2 ^ (972 : ℤ) := by
        rw [hdouble]
        ring
    _ ≤ 2 ^ 52 * 2 ^ exponent :=
        mul_le_mul_of_nonneg_left (zpow_le_zpow_right₀ one_le_two hexponent)
          (by positivity)
    _ ≤ mantissa * 2 ^ exponent := mul_two_zpow_le hmantissa exponent

theorem nearest_nonneg {x : ℚ} (hx : 0 ≤ x) : 0 ≤ nearest x := by
  have hquotient : (0 : ℚ) ≤ x / 2 ^ lastPlace x :=
    div_nonneg hx (two_zpow_pos _).le
  have hmantissa : 0 ≤ nearestEven (x / 2 ^ lastPlace x) :=
    le_nearestEven_of_lt (by push_cast; linarith)
  exact mul_nonneg (by exact_mod_cast hmantissa) (two_zpow_pos _).le

/-- The magnitude of the nearest number is that of the nearest mantissa. -/
theorem abs_nearest (x : ℚ) :
    |nearest x| = nearestEven (|x| / 2 ^ lastPlace x) * 2 ^ lastPlace x := by
  rcases le_total 0 x with hx | hx
  · rw [abs_of_nonneg (nearest_nonneg hx), abs_of_nonneg hx, nearest]
  · have hneg : 0 ≤ -x := neg_nonneg.mpr hx
    rw [← abs_neg, ← nearest_neg, abs_of_nonneg (nearest_nonneg hneg), nearest,
      lastPlace_neg, abs_of_nonpos hx]

/-- Below a power of two, the last place is 53 digits further down. -/
theorem lastPlace_le {x : ℚ} {exponent : ℤ} (hexponent : 1 ≤ exponent)
    (hx : |x| < 2 ^ exponent) : lastPlace x ≤ exponent - 53 := by
  rcases eq_or_ne x 0 with rfl | hne
  · rw [lastPlace, abs_zero, Int.log_zero_right]
    omega
  · have hlog : Int.log 2 |x| < exponent :=
      (Int.lt_zpow_iff_log_lt one_lt_two (abs_pos.mpr hne)).mp
        (by exact_mod_cast hx)
    unfold lastPlace
    omega

theorem le_lastPlace {x : ℚ} {exponent : ℤ} (hx : 2 ^ exponent ≤ |x|) :
    exponent - 52 ≤ lastPlace x := by
  have hpos : 0 < |x| := (two_zpow_pos exponent).trans_le hx
  have hlog : exponent ≤ Int.log 2 |x| :=
    (Int.zpow_le_iff_le_log one_lt_two hpos).mp (by exact_mod_cast hx)
  unfold lastPlace
  omega

/-- Below the bound, the nearest number is in range. -/
theorem abs_nearest_lt {x : ℚ} (hx : |x| < overflowBound) :
    |nearest x| < rangeBound := by
  have hrange : |x| < 2 ^ (1024 : ℤ) :=
    (hx.trans overflowBound_lt_rangeBound).trans_eq (zpow_natCast 2 1024).symm
  have hplace : lastPlace x ≤ 971 := lastPlace_le (by norm_num) hrange
  rw [abs_nearest]
  rcases hplace.lt_or_eq with hlt | heq
  · have hmantissa : nearestEven (|x| / 2 ^ lastPlace x) ≤ 2 ^ 53 :=
      nearestEven_le_of_lt (by push_cast; linarith [@div_lastPlace_lt x])
    rw [rangeBound_eq]
    calc (nearestEven (|x| / 2 ^ lastPlace x) : ℚ) * 2 ^ lastPlace x
        ≤ 2 ^ 53 * 2 ^ lastPlace x :=
          mul_two_zpow_le (by exact_mod_cast hmantissa) _
      _ < 2 ^ 53 * 2 ^ (971 : ℤ) :=
          mul_lt_mul_of_pos_left (zpow_lt_zpow_right₀ one_lt_two hlt)
            (by positivity)
  · rw [overflowBound_eq, ← div_lt_iff₀ (two_zpow_pos _)] at hx
    rw [heq]
    generalize |x| / (2 : ℚ) ^ (971 : ℤ) = mantissa at hx ⊢
    have hmantissa : nearestEven mantissa ≤ 2 ^ 53 - 1 :=
      nearestEven_le_of_lt (by push_cast; linarith)
    have hcast : (nearestEven mantissa : ℚ) < 2 ^ 53 := by
      exact_mod_cast Int.lt_of_le_sub_one hmantissa
    exact mul_lt_rangeBound hcast le_rfl

/-- From the bound on, the nearest number is out of range. -/
theorem le_abs_nearest {x : ℚ} (hx : overflowBound ≤ |x|) :
    rangeBound ≤ |nearest x| := by
  have hhalf : (2 : ℚ) ^ (1023 : ℤ) ≤ |x| :=
    calc (2 : ℚ) ^ (1023 : ℤ) = 2 ^ 52 * 2 ^ (971 : ℤ) :=
          zpow_add₀ two_ne_zero 52 971
      _ ≤ (2 ^ 53 - 1 / 2) * 2 ^ (971 : ℤ) := mul_two_zpow_le (by norm_num) _
      _ ≤ |x| := by rwa [← overflowBound_eq]
  have hne : x ≠ 0 := abs_pos.mp ((two_zpow_pos _).trans_le hhalf)
  have hplace : 971 ≤ lastPlace x := le_lastPlace hhalf
  rw [abs_nearest]
  rcases hplace.lt_or_eq with hlt | heq
  · have hdigits := le_div_lastPlace hne (by omega : -1074 < lastPlace x)
    have hmantissa : 2 ^ 52 ≤ nearestEven (|x| / 2 ^ lastPlace x) :=
      le_nearestEven_of_lt (by push_cast; linarith)
    exact rangeBound_le_mul (by exact_mod_cast hmantissa) hlt
  · rw [overflowBound_eq, ← le_div_iff₀ (two_zpow_pos _)] at hx
    rw [← heq, rangeBound_eq]
    generalize |x| / (2 : ℚ) ^ (971 : ℤ) = mantissa at hx ⊢
    have hmantissa : 2 ^ 53 ≤ nearestEven mantissa := by
      rcases hx.lt_or_eq with hlt | htie
      · exact le_nearestEven_of_lt (by push_cast; linarith)
      · -- The mantissa below the tie is odd, so the tie goes up.
        have hsplit : mantissa = ((2 ^ 53 - 1 : ℤ) : ℚ) + 1 / 2 := by
          rw [← htie]
          norm_num
        rw [hsplit, nearestEven_add (by norm_num) (by norm_num)]
        norm_num
    exact mul_two_zpow_le (by exact_mod_cast hmantissa) _

theorem abs_nearest_lt_iff {x : ℚ} :
    |nearest x| < rangeBound ↔ |x| < overflowBound := by
  constructor
  · intro hnearest
    by_contra hbound
    exact (le_abs_nearest (not_lt.mp hbound)).not_gt hnearest
  · exact abs_nearest_lt

/-! ## Exact numbers -/

/-- A whole number of last places is its own nearest number. -/
theorem nearest_eq_self {x : ℚ} {mantissa : ℤ}
    (hx : x = mantissa * 2 ^ lastPlace x) : nearest x = x := by
  have hmantissa : x / 2 ^ lastPlace x = mantissa := by
    rw [div_eq_iff (two_zpow_pos _).ne']
    exact hx
  rw [nearest, hmantissa, nearestEven_intCast]
  exact hx.symm

/-- Whole numbers of at most 53 digits are exact, and so are their products with powers of
two. -/
theorem nearest_natCast_mul {number exponent : ℕ} (hnumber : number < 2 ^ 53) :
    nearest (number * 2 ^ exponent) = number * 2 ^ exponent := by
  have hcast : |(number : ℚ) * 2 ^ exponent| < 2 ^ (53 + exponent : ℤ) := by
    rw [abs_of_nonneg (by positivity), zpow_add₀ two_ne_zero, zpow_natCast]
    refine mul_lt_mul_of_pos_right ?_ (by positivity)
    exact_mod_cast hnumber
  have hplace : lastPlace (number * 2 ^ exponent) ≤ exponent := by
    have hless := lastPlace_le (by omega) hcast
    omega
  obtain ⟨count, hcount⟩ := Int.eq_ofNat_of_zero_le (sub_nonneg.mpr hplace)
  apply @nearest_eq_self _ (number * 2 ^ count)
  have hsplit : (2 : ℚ) ^ count * 2 ^ lastPlace (number * 2 ^ exponent) = 2 ^ exponent := by
    rw [← zpow_natCast, ← hcount, ← zpow_add₀ two_ne_zero, sub_add_cancel, zpow_natCast]
  push_cast
  rw [mul_assoc, hsplit]

theorem nearest_natCast {number : ℕ} (hnumber : number < 2 ^ 53) :
    nearest number = number := by
  have hexact := @nearest_natCast_mul number 0 hnumber
  rwa [pow_zero, mul_one] at hexact

end TournamentScoring.Binary64
