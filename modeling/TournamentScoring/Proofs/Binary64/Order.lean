import Mathlib
import TournamentScoring.Proofs.Binary64.Arithmetic
import TournamentScoring.Proofs.Binary64.Identity

/-!
# The order of floats

Floats are compared as the numbers they stand for, where the infinities stand at the
two ends of the range.  Rounding keeps the order of numbers, so every operation that is
rounded once keeps the order wherever the exact operation does.
-/

namespace TournamentScoring.Binary64

open Float.Model Float.Model.UnpackedFloat

/-! ## Rounding keeps the order -/

theorem nearestEven_mono {x y : ℚ} (hle : x ≤ y) : nearestEven x ≤ nearestEven y := by
  by_contra hless
  -- Between the two results lies a tie, which neither number passes.
  have hx : (nearestEven y : ℚ) + 1 / 2 ≤ x := by
    by_contra hbelow
    exact hless (nearestEven_le_of_lt (not_le.mp hbelow))
  have hy : y ≤ (nearestEven y : ℚ) + 1 / 2 := by
    by_contra habove
    have hsucc : nearestEven y + 1 ≤ nearestEven y :=
      le_nearestEven_of_lt (by push_cast; linarith)
    omega
  obtain rfl : x = y := by linarith
  exact hless le_rfl

theorem lastPlace_mono {x y : ℚ} (hpos : 0 < x) (hle : x ≤ y) :
    lastPlace x ≤ lastPlace y := by
  have hlog : Int.log 2 x ≤ Int.log 2 y := Int.log_mono_right hpos hle
  rw [lastPlace, lastPlace, abs_of_pos hpos, abs_of_pos (hpos.trans_le hle)]
  omega

/-- A carry out of 53 digits moves to the next last place. -/
theorem carry_le {exponent exponent' : ℤ} (hlt : exponent < exponent') :
    (2 : ℚ) ^ 53 * 2 ^ exponent ≤ 2 ^ 52 * 2 ^ exponent' :=
  calc (2 : ℚ) ^ 53 * 2 ^ exponent = 2 ^ 52 * 2 ^ (exponent + 1) := by
        rw [zpow_add_one₀ two_ne_zero]
        ring
    _ ≤ 2 ^ 52 * 2 ^ exponent' :=
        mul_le_mul_of_nonneg_left (zpow_le_zpow_right₀ one_le_two hlt) (by positivity)

theorem nearest_le_nearest_of_pos {x y : ℚ} (hpos : 0 < x) (hle : x ≤ y) :
    nearest x ≤ nearest y := by
  have hpos' : 0 < y := hpos.trans_le hle
  rcases (lastPlace_mono hpos hle).eq_or_lt with hplace | hplace
  · have hmantissa : nearestEven (x / 2 ^ lastPlace y) ≤
        nearestEven (y / 2 ^ lastPlace y) :=
      nearestEven_mono (div_le_div_of_nonneg_right hle (two_zpow_pos _).le)
    rw [nearest, nearest, hplace]
    exact mul_two_zpow_le (by exact_mod_cast hmantissa) _
  · -- The larger number has all its digits, so a carry of the smaller one stays below.
    have hleast : -1074 ≤ lastPlace x := le_max_right _ _
    have hdigits := @div_lastPlace_lt x
    have hdigits' := le_div_lastPlace hpos'.ne' (hleast.trans_lt hplace)
    rw [abs_of_pos hpos] at hdigits
    rw [abs_of_pos hpos'] at hdigits'
    have hupper : nearestEven (x / 2 ^ lastPlace x) ≤ 2 ^ 53 :=
      nearestEven_le_of_lt (by push_cast; linarith)
    have hlower : 2 ^ 52 ≤ nearestEven (y / 2 ^ lastPlace y) :=
      le_nearestEven_of_lt (by push_cast; linarith)
    calc nearest x ≤ 2 ^ 53 * 2 ^ lastPlace x :=
          mul_two_zpow_le (by exact_mod_cast hupper) _
      _ ≤ 2 ^ 52 * 2 ^ lastPlace y := carry_le hplace
      _ ≤ nearest y := mul_two_zpow_le (by exact_mod_cast hlower) _

theorem nearest_mono {x y : ℚ} (hle : x ≤ y) : nearest x ≤ nearest y := by
  rcases lt_or_ge 0 x with hpos | hnonpos
  · exact nearest_le_nearest_of_pos hpos hle
  · have hx : 0 ≤ -x := neg_nonneg.mpr hnonpos
    rcases lt_or_ge y 0 with hneg | hnonneg
    · have hnearest := nearest_le_nearest_of_pos (neg_pos.mpr hneg) (neg_le_neg hle)
      rw [nearest_neg, nearest_neg] at hnearest
      exact neg_le_neg_iff.mp hnearest
    · calc nearest x ≤ 0 := by
            rw [← neg_nonneg, ← nearest_neg]
            exact nearest_nonneg hx
        _ ≤ nearest y := nearest_nonneg hnonneg

/-! ## Ranks -/

/-- The place of an unpacked float in the order of floats: its number, or an end of the
range. -/
def unpackedRank : UnpackedFloat → ℚ
  | .infinity sign => signed sign rangeBound
  | unpacked => unpackedValue unpacked

/-- The place of a float in the order of floats. -/
def rank (x : Float) : ℚ :=
  unpackedRank x.toModel.unpack

theorem unpackedRank_of_isFinite {unpacked : UnpackedFloat}
    (hfinite : unpacked.isFinite = true) :
    unpackedRank unpacked = unpackedValue unpacked := by
  cases unpacked with
  | infinity sign => cases hfinite
  | notANumber | zero sign | finite sign mantissa exponent hpos => rfl

theorem rank_of_isFinite {x : Float} (hx : x.isFinite = true) : rank x = value x :=
  unpackedRank_of_isFinite hx

theorem rangeBound_pos : 0 < rangeBound :=
  overflowBound_pos.trans overflowBound_lt_rangeBound

theorem abs_unpackedValue_assemble_lt (sign : Sign) {mantissa : ℕ} {exponent : ℤ}
    (hcanonical : Canonical mantissa exponent) (hexponent : exponent ≤ 971) :
    |unpackedValue (assemble sign mantissa exponent)| < rangeBound := by
  rw [unpackedValue_assemble, abs_signed, abs_of_nonneg
    (mul_nonneg (Nat.cast_nonneg mantissa) (two_zpow_pos _).le)]
  exact hcanonical.exponent_le_iff.mp hexponent

/-! ## Comparison -/

theorem Canonical.mul_lt_mul {mantissa mantissa' : ℕ} {exponent exponent' : ℤ}
    (hcanonical : Canonical mantissa exponent)
    (hcanonical' : Canonical mantissa' exponent') (hlt : exponent < exponent') :
    (mantissa : ℚ) * 2 ^ exponent < mantissa' * 2 ^ exponent' := by
  have hleast := hcanonical.exponent_ge
  have hnormal : 2 ^ 52 ≤ mantissa' := hcanonical'.normal.resolve_right (by omega)
  calc (mantissa : ℚ) * 2 ^ exponent < 2 ^ 53 * 2 ^ exponent :=
        mul_two_zpow_lt (by exact_mod_cast hcanonical.mantissa_lt) _
    _ ≤ 2 ^ 52 * 2 ^ exponent' := carry_le hlt
    _ ≤ mantissa' * 2 ^ exponent' := mul_two_zpow_le (by exact_mod_cast hnormal) _

/-- Canonical numbers are compared by their exponents, and then by their mantissas. -/
theorem Canonical.compare_eq {mantissa mantissa' : ℕ} {exponent exponent' : ℤ}
    (hcanonical : Canonical mantissa exponent)
    (hcanonical' : Canonical mantissa' exponent') :
    (compare exponent exponent').then (compare mantissa mantissa') =
      compare ((mantissa : ℚ) * 2 ^ exponent) (mantissa' * 2 ^ exponent') := by
  rcases lt_trichotomy exponent exponent' with hlt | rfl | hgt
  · rw [Int.compare_eq_lt.mpr hlt, compare_lt_iff_lt.mpr (hcanonical.mul_lt_mul hcanonical' hlt)]
    rfl
  · rw [Int.compare_eq_eq.mpr rfl]
    rcases lt_trichotomy mantissa mantissa' with hlt | rfl | hgt
    · rw [Nat.compare_eq_lt.mpr hlt,
        compare_lt_iff_lt.mpr (mul_two_zpow_lt (by exact_mod_cast hlt) exponent)]
      rfl
    · rw [Nat.compare_eq_eq.mpr rfl, compare_eq_iff_eq.mpr rfl]
      rfl
    · rw [Nat.compare_eq_gt.mpr hgt,
        compare_gt_iff_gt.mpr (mul_two_zpow_lt (by exact_mod_cast hgt) exponent)]
      rfl
  · rw [Int.compare_eq_gt.mpr hgt, compare_gt_iff_gt.mpr (hcanonical'.mul_lt_mul hcanonical hgt)]
    rfl

theorem swap_compare_eq (x y : ℚ) : (compare x y).swap = compare (-x) (-y) := by
  rcases lt_trichotomy x y with hlt | rfl | hgt
  · rw [compare_lt_iff_lt.mpr hlt, compare_gt_iff_gt.mpr (neg_lt_neg hlt)]
    rfl
  · rw [compare_eq_iff_eq.mpr rfl, compare_eq_iff_eq.mpr rfl]
    rfl
  · rw [compare_gt_iff_gt.mpr hgt, compare_lt_iff_lt.mpr (neg_lt_neg hgt)]
    rfl

theorem compare_assemble (sign sign' : Sign) {mantissa mantissa' : ℕ}
    {exponent exponent' : ℤ} (hcanonical : Canonical mantissa exponent)
    (hcanonical' : Canonical mantissa' exponent') :
    (assemble sign mantissa exponent).compare (assemble sign' mantissa' exponent') =
      some (compare (signed sign (mantissa * 2 ^ exponent))
        (signed sign' (mantissa' * 2 ^ exponent'))) := by
  have hmagnitudes := hcanonical.compare_eq hcanonical'
  have hpositive : ∀ {digits : ℕ} (place : ℤ), 0 < digits → (0 : ℚ) < digits * 2 ^ place :=
    fun place hdigits => mul_pos (by exact_mod_cast hdigits) (two_zpow_pos place)
  rcases Nat.eq_zero_or_pos mantissa with rfl | hpos
  · rcases Nat.eq_zero_or_pos mantissa' with rfl | hpos'
    · rw [Nat.cast_zero, zero_mul, zero_mul, signed_zero, signed_zero,
        compare_eq_iff_eq.mpr rfl]
      rfl
    · have hright := hpositive exponent' hpos'
      rw [assemble_of_pos hpos', Nat.cast_zero, zero_mul, signed_zero]
      cases sign' with
      | negative => rw [signed, compare_gt_iff_gt.mpr (neg_neg_of_pos hright)]; rfl
      | positive => rw [signed, compare_lt_iff_lt.mpr hright]; rfl
  · have hleft := hpositive exponent hpos
    rcases Nat.eq_zero_or_pos mantissa' with rfl | hpos'
    · rw [assemble_of_pos hpos, Nat.cast_zero, zero_mul, signed_zero]
      cases sign with
      | negative => rw [signed, compare_lt_iff_lt.mpr (neg_neg_of_pos hleft)]; rfl
      | positive => rw [signed, compare_gt_iff_gt.mpr hleft]; rfl
    · have hright := hpositive exponent' hpos'
      rw [assemble_of_pos hpos, assemble_of_pos hpos']
      cases sign with
      | negative =>
        cases sign' with
        | negative =>
          rw [signed, signed, ← swap_compare_eq, ← hmagnitudes]
          rfl
        | positive =>
          rw [signed, signed, compare_lt_iff_lt.mpr (by linarith)]
          rfl
      | positive =>
        cases sign' with
        | negative =>
          rw [signed, signed, compare_gt_iff_gt.mpr (by linarith)]
          rfl
        | positive =>
          rw [signed, signed, ← hmagnitudes]
          rfl

theorem compare_infinity_assemble (sign sign' : Sign) {mantissa : ℕ} {exponent : ℤ}
    (hcanonical : Canonical mantissa exponent) (hexponent : exponent ≤ 971) :
    (UnpackedFloat.infinity sign).compare (assemble sign' mantissa exponent) =
      some (compare (signed sign rangeBound)
        (unpackedValue (assemble sign' mantissa exponent))) := by
  obtain ⟨hlow, hhigh⟩ :=
    abs_lt.mp (abs_unpackedValue_assemble_lt sign' hcanonical hexponent)
  cases sign with
  | negative =>
    rw [signed, compare_lt_iff_lt.mpr hlow, assemble]
    split <;> rfl
  | positive =>
    rw [signed, compare_gt_iff_gt.mpr hhigh, assemble]
    split <;> rfl

theorem compare_assemble_infinity (sign sign' : Sign) {mantissa : ℕ} {exponent : ℤ}
    (hcanonical : Canonical mantissa exponent) (hexponent : exponent ≤ 971) :
    (assemble sign mantissa exponent).compare (.infinity sign') =
      some (compare (unpackedValue (assemble sign mantissa exponent))
        (signed sign' rangeBound)) := by
  obtain ⟨hlow, hhigh⟩ :=
    abs_lt.mp (abs_unpackedValue_assemble_lt sign hcanonical hexponent)
  cases sign' with
  | negative =>
    rw [signed, compare_gt_iff_gt.mpr hlow, assemble]
    split <;> rfl
  | positive =>
    rw [signed, compare_lt_iff_lt.mpr hhigh, assemble]
    split <;> rfl

theorem compare_infinity_infinity (sign sign' : Sign) :
    (UnpackedFloat.infinity sign).compare (.infinity sign') =
      some (compare (signed sign rangeBound) (signed sign' rangeBound)) := by
  have hrange : -rangeBound < rangeBound := neg_lt_self rangeBound_pos
  cases sign with
  | negative =>
    cases sign' with
    | negative => rw [compare_eq_iff_eq.mpr rfl]; rfl
    | positive => rw [signed, signed, compare_lt_iff_lt.mpr hrange]; rfl
  | positive =>
    cases sign' with
    | negative => rw [signed, signed, compare_gt_iff_gt.mpr hrange]; rfl
    | positive => rw [compare_eq_iff_eq.mpr rfl]; rfl

/-- Whatever is a number is compared by its rank. -/
theorem Unpacked.compare_eq {left right : UnpackedFloat} (hleft : Unpacked left)
    (hright : Unpacked right) (hnumber : left.isNaN = false)
    (hnumber' : right.isNaN = false) :
    left.compare right = some (compare (unpackedRank left) (unpackedRank right)) := by
  cases hleft with
  | notANumber => cases hnumber
  | infinity sign =>
    cases hright with
    | notANumber => cases hnumber'
    | infinity sign' => exact compare_infinity_infinity sign sign'
    | finite sign' hcanonical' hexponent' =>
      rw [unpackedRank_of_isFinite (isFinite_assemble _ _ _)]
      exact compare_infinity_assemble sign sign' hcanonical' hexponent'
  | finite sign hcanonical hexponent =>
    rw [unpackedRank_of_isFinite (isFinite_assemble _ _ _)]
    cases hright with
    | notANumber => cases hnumber'
    | infinity sign' => exact compare_assemble_infinity sign sign' hcanonical hexponent
    | finite sign' hcanonical' hexponent' =>
      rw [unpackedRank_of_isFinite (isFinite_assemble _ _ _), unpackedValue_assemble,
        unpackedValue_assemble]
      exact compare_assemble sign sign' hcanonical hcanonical'

theorem isNaN_of_compare_ne_none {left right : UnpackedFloat}
    (hcompare : left.compare right ≠ none) : left.isNaN = false ∧ right.isNaN = false := by
  cases left with
  | notANumber => exact absurd rfl hcompare
  | infinity sign | zero sign | finite sign mantissa exponent hpos =>
    cases right with
    | notANumber => exact absurd rfl hcompare
    | infinity sign' | zero sign' | finite sign' mantissa' exponent' hpos' => exact ⟨rfl, rfl⟩

section Comparison

variable {x y : Float}

theorem compare_unpack (hx : x.isNaN = false) (hy : y.isNaN = false) :
    x.toModel.unpack.compare y.toModel.unpack = some (compare (rank x) (rank y)) :=
  Unpacked.compare_eq (unpacked_unpack _) (unpacked_unpack _) hx hy

theorem le_iff_compare :
    x ≤ y ↔ (x.toModel.unpack.compare y.toModel.unpack).any (·.isLE) = true :=
  decide_eq_true_iff

theorem le_iff_rank_le (hx : x.isNaN = false) (hy : y.isNaN = false) :
    x ≤ y ↔ rank x ≤ rank y := by
  rw [le_iff_compare, compare_unpack hx hy, Option.any_some, Ordering.isLE_iff_ne_gt,
    ← ne_eq, compare_le_iff_le]

/-- Only numbers are comparable. -/
theorem isNaN_of_le (hle : x ≤ y) : x.isNaN = false ∧ y.isNaN = false := by
  apply isNaN_of_compare_ne_none
  intro hnone
  rw [le_iff_compare, hnone] at hle
  cases hle

theorem rank_le_of_le (hle : x ≤ y) : rank x ≤ rank y :=
  (le_iff_rank_le (isNaN_of_le hle).1 (isNaN_of_le hle).2).mp hle

theorem lt_iff_rank_lt (hx : x.isNaN = false) (hy : y.isNaN = false) :
    x < y ↔ rank x < rank y := by
  have hlt : x < y ↔ (x.toModel.unpack.compare y.toModel.unpack == some .lt) = true :=
    decide_eq_true_iff
  rw [hlt, compare_unpack hx hy, beq_iff_eq, Option.some_inj, compare_lt_iff_lt]

theorem beq_iff_rank_eq (hx : x.isNaN = false) (hy : y.isNaN = false) :
    (x == y) = true ↔ rank x = rank y := by
  have hbeq : (x == y) = true ↔
      (x.toModel.unpack.compare y.toModel.unpack == some .eq) = true := Iff.rfl
  rw [hbeq, compare_unpack hx hy, beq_iff_eq, Option.some_inj, compare_eq_iff_eq]

theorem le_iff_value_le (hx : x.isFinite = true) (hy : y.isFinite = true) :
    x ≤ y ↔ value x ≤ value y := by
  rw [le_iff_rank_le (isNaN_of_isFinite hx) (isNaN_of_isFinite hy), rank_of_isFinite hx,
    rank_of_isFinite hy]

theorem lt_iff_value_lt (hx : x.isFinite = true) (hy : y.isFinite = true) :
    x < y ↔ value x < value y := by
  rw [lt_iff_rank_lt (isNaN_of_isFinite hx) (isNaN_of_isFinite hy), rank_of_isFinite hx,
    rank_of_isFinite hy]

theorem beq_iff_value_eq (hx : x.isFinite = true) (hy : y.isFinite = true) :
    (x == y) = true ↔ value x = value y := by
  rw [beq_iff_rank_eq (isNaN_of_isFinite hx) (isNaN_of_isFinite hy), rank_of_isFinite hx,
    rank_of_isFinite hy]

theorem abs_rank_le (x : Float) : |rank x| ≤ rangeBound := by
  have hunpacked : Unpacked x.toModel.unpack := unpacked_unpack _
  rw [rank]
  generalize x.toModel.unpack = unpacked at hunpacked ⊢
  cases hunpacked with
  | notANumber => exact abs_zero.trans_le rangeBound_pos.le
  | infinity sign => rw [unpackedRank, abs_signed, abs_of_pos rangeBound_pos]
  | finite sign hcanonical hexponent =>
    rw [unpackedRank_of_isFinite (isFinite_assemble _ _ _)]
    exact (abs_unpackedValue_assemble_lt sign hcanonical hexponent).le

end Comparison

/-! ## Operations that are rounded once -/

theorem Rounds.isNaN_eq {x : ℚ} {unpacked : UnpackedFloat}
    (hrounds : Rounds x unpacked) : unpacked.isNaN = false := by
  rw [Rounds] at hrounds
  split at hrounds
  · cases unpacked with
    | notANumber => cases hrounds.1
    | infinity sign | zero sign | finite sign mantissa exponent hpos => rfl
  · rw [hrounds]
    rfl

/-- The rank of what a number rounds to: the nearest number, kept within the range. -/
theorem Rounds.unpackedRank_eq {x : ℚ} {unpacked : UnpackedFloat}
    (hrounds : Rounds x unpacked) :
    unpackedRank unpacked = max (-rangeBound) (min rangeBound (nearest x)) := by
  rw [Rounds] at hrounds
  by_cases hx : |x| < overflowBound
  · rw [if_pos hx] at hrounds
    obtain ⟨hlow, hhigh⟩ := abs_lt.mp (abs_nearest_lt hx)
    rw [unpackedRank_of_isFinite hrounds.1, hrounds.2, min_eq_right hhigh.le,
      max_eq_right hlow.le]
  · rw [if_neg hx] at hrounds
    have hbound := le_abs_nearest (not_lt.mp hx)
    have hrange := rangeBound_pos
    rw [hrounds]
    by_cases hneg : x < 0
    · have hnearest : nearest x ≤ 0 := nearest_zero ▸ nearest_mono hneg.le
      rw [abs_of_nonpos hnearest] at hbound
      rw [if_pos hneg, min_eq_right (by linarith), max_eq_left (by linarith)]
      rfl
    · have hnearest : 0 ≤ nearest x := nearest_nonneg (not_lt.mp hneg)
      rw [abs_of_nonneg hnearest] at hbound
      rw [if_neg hneg, min_eq_left hbound, max_eq_right (by linarith)]
      rfl

/-- Rounding keeps the order of numbers. -/
theorem Rounds.le {x y : ℚ} {left right : Float} (hleft : Rounds x left.toModel.unpack)
    (hright : Rounds y right.toModel.unpack) (hle : x ≤ y) : left ≤ right := by
  rw [le_iff_rank_le hleft.isNaN_eq hright.isNaN_eq, rank, rank, hleft.unpackedRank_eq,
    hright.unpackedRank_eq]
  exact max_le_max_left _ (min_le_min_left _ (nearest_mono hle))

theorem product_le_product {x y factor : Float} (hx : x.isFinite = true)
    (hy : y.isFinite = true) (hfactor : factor.isFinite = true)
    (hnonneg : 0 ≤ value factor) (hle : x ≤ y) : x * factor ≤ y * factor :=
  (rounds_mul hx hfactor).le (rounds_mul hy hfactor)
    (mul_le_mul_of_nonneg_right ((le_iff_value_le hx hy).mp hle) hnonneg)

/-! ## Steps from float to float -/

theorem isFinite_or_infinity {x : Float} (hx : x.isNaN = false) :
    x.isFinite = true ∨ ∃ sign, x.toModel.unpack = .infinity sign := by
  rw [isNaN_eq] at hx
  rw [isFinite_eq]
  cases hunpack : x.toModel.unpack with
  | notANumber =>
    rw [hunpack] at hx
    cases hx
  | infinity sign => exact .inr ⟨sign, rfl⟩
  | zero sign | finite sign mantissa exponent hpos => exact .inl rfl

theorem rank_of_infinity {x : Float} {sign : Sign}
    (hx : x.toModel.unpack = .infinity sign) : rank x = signed sign rangeBound := by
  rw [rank, hx, unpackedRank]

theorem abs_rank_lt {x : Float} (hx : x.isFinite = true) : |rank x| < rangeBound := by
  rw [rank_of_isFinite hx]
  exact (abs_value_lt hx).trans overflowBound_lt_rangeBound

theorem le_refl_of_isFinite {x : Float} (hx : x.isFinite = true) : x ≤ x :=
  (le_iff_value_le hx hx).mpr le_rfl

/-- A step that leaves infinities alone keeps the order if it does so for finite floats. -/
theorem le_of_le_of_finite {step : Float → Float}
    (hinfinite : ∀ {x : Float} {sign : Sign}, x.toModel.unpack = .infinity sign →
      (step x).toModel.unpack = .infinity sign)
    (hfinite : ∀ {x y : Float}, x.isFinite = true → y.isFinite = true → x ≤ y →
      step x ≤ step y)
    {x y : Float} (hle : x ≤ y) : step x ≤ step y := by
  have hnumber : ∀ {z : Float}, z.isNaN = false → (step z).isNaN = false := by
    intro z hz
    rcases isFinite_or_infinity hz with hfin | ⟨sign, hinf⟩
    · exact (isNaN_of_le (hfinite hfin hfin (le_refl_of_isFinite hfin))).1
    · rw [isNaN_eq, hinfinite hinf]
      rfl
  obtain ⟨hx, hy⟩ := isNaN_of_le hle
  have hrank := rank_le_of_le hle
  rcases isFinite_or_infinity hx with hfin | ⟨sign, hinf⟩
  · rcases isFinite_or_infinity hy with hfin' | ⟨sign', hinf'⟩
    · exact hfinite hfin hfin' hle
    · rw [le_iff_rank_le (hnumber hx) (hnumber hy), rank_of_infinity (hinfinite hinf')]
      rw [rank_of_infinity hinf'] at hrank
      cases sign' with
      | negative => exact absurd hrank (abs_lt.mp (abs_rank_lt hfin)).1.not_ge
      | positive => exact (abs_le.mp (abs_rank_le _)).2
  · rw [le_iff_rank_le (hnumber hx) (hnumber hy), rank_of_infinity (hinfinite hinf)]
    cases sign with
    | negative => exact (abs_le.mp (abs_rank_le _)).1
    | positive =>
      rw [rank_of_infinity hinf] at hrank
      rcases isFinite_or_infinity hy with hfin' | ⟨sign', hinf'⟩
      · exact absurd hrank (abs_lt.mp (abs_rank_lt hfin')).2.not_ge
      · rw [rank_of_infinity (hinfinite hinf')]
        exact rank_of_infinity hinf' ▸ hrank

theorem exists_unpack_eq_of_pos {x : Float} (hx : x.isFinite = true)
    (hpos : 0 < value x) :
    ∃ mantissa exponent, ∃ hmantissa : 0 < mantissa, Canonical mantissa exponent ∧
      x.toModel.unpack = .finite .positive mantissa exponent hmantissa ∧
      value x = mantissa * 2 ^ exponent := by
  obtain ⟨sign, mantissa, exponent, hcanonical, -, hunpack, hvalue⟩ := exists_unpack_eq hx
  have hnonneg : (0 : ℚ) ≤ mantissa * 2 ^ exponent :=
    mul_nonneg (Nat.cast_nonneg mantissa) (two_zpow_pos _).le
  cases sign with
  | negative =>
    rw [hvalue] at hpos
    exact absurd hpos (neg_nonpos.mpr hnonneg).not_gt
  | positive =>
    have hmantissa : 0 < mantissa := by
      apply Nat.pos_of_ne_zero
      rintro rfl
      rw [hvalue, Nat.cast_zero, zero_mul, signed_zero] at hpos
      exact lt_irrefl 0 hpos
    exact ⟨mantissa, exponent, hmantissa, hcanonical,
      hunpack.trans (assemble_of_pos hmantissa), hvalue⟩

theorem unpack_infinity_div {x divisor : Float} {sign : Sign}
    (hx : x.toModel.unpack = .infinity sign) (hdivisor : divisor.isFinite = true)
    (hpos : 0 < value divisor) : (x / divisor).toModel.unpack = .infinity sign := by
  obtain ⟨mantissa, exponent, hmantissa, -, hunpack, -⟩ :=
    exists_unpack_eq_of_pos hdivisor hpos
  have hinfinity : UnpackedFloat.div .binary64 (.infinity sign)
      (.finite .positive mantissa exponent hmantissa) = .infinity sign := by
    cases sign <;> rfl
  rw [unpack_div, hx, hunpack, hinfinity, unpack_pack (.infinity sign)]

/-- Division by a positive number keeps the order, infinities included. -/
theorem quotient_le_quotient {divisor : Float} (hdivisor : divisor.isFinite = true)
    (hpos : 0 < value divisor) {x y : Float} (hle : x ≤ y) : x / divisor ≤ y / divisor := by
  refine @le_of_le_of_finite (· / divisor) (fun hx => ?_) (fun hx hy hle => ?_) x y hle
  · exact unpack_infinity_div hx hdivisor hpos
  · exact (rounds_div hx hdivisor hpos.ne').le (rounds_div hy hdivisor hpos.ne')
      (div_le_div_of_nonneg_right ((le_iff_value_le hx hy).mp hle) hpos.le)

end TournamentScoring.Binary64
