import TournamentScoring.Decimal.Shortest
import TournamentScoring.Proofs.Binary64.Identity
import TournamentScoring.Proofs.Decimal.Reading

/-!
# The shortest digits read back

The search for the fewest digits compares whole numbers over a common
denominator.  Read as rational numbers, its checks say that a decimal lies in the
interval of the numbers that round to the float, and the last grid is so fine
that its nearest point needs no check.
-/

namespace TournamentScoring.Decimal

open TournamentScoring.Binary64

/-! ## The interval of a float -/

namespace Interval

/-- The interval as a set of rational numbers; a closed one has its ends. -/
def Contains (interval : Interval) (x : ℚ) : Prop :=
  interval.low * 2 ^ interval.exponent ≤ x ∧
    x ≤ interval.high * 2 ^ interval.exponent ∧
    (interval.closed = true ∨ interval.low * 2 ^ interval.exponent < x ∧
      x < interval.high * 2 ^ interval.exponent)

theorem contains_of_lt {interval : Interval} {x : ℚ}
    (hlow : interval.low * 2 ^ interval.exponent < x)
    (hhigh : x < interval.high * 2 ^ interval.exponent) : interval.Contains x :=
  ⟨hlow.le, hhigh.le, .inr ⟨hlow, hhigh⟩⟩

theorem quarter_mul (count : ℚ) (exponent : ℤ) :
    count * 2 ^ (exponent - 2) = count / 4 * 2 ^ exponent := by
  rw [zpow_sub₀ two_ne_zero]
  ring

/-- The gap below a float is half of the last place where it is the least one
with all 53 digits. -/
theorem ofFloat_low {mantissa : ℕ} {exponent : ℤ} (hpos : 0 < mantissa) :
    ((ofFloat mantissa exponent).low : ℚ) =
      if mantissa = 2 ^ 52 ∧ -1074 < exponent then 4 * (mantissa : ℚ) - 1
      else 4 * (mantissa : ℚ) - 2 := by
  have hlow : (ofFloat mantissa exponent).low =
      if mantissa = 2 ^ 52 ∧ -1074 < exponent then 4 * mantissa - 1
      else 4 * mantissa - 2 := rfl
  rw [hlow]
  split
  · rw [Nat.cast_sub (by omega)]
    push_cast
    rfl
  · rw [Nat.cast_sub (by omega)]
    push_cast
    rfl

theorem ofFloat_high (mantissa : ℕ) (exponent : ℤ) :
    ((ofFloat mantissa exponent).high : ℚ) = 4 * mantissa + 2 := by
  have hhigh : (ofFloat mantissa exponent).high = 4 * mantissa + 2 := rfl
  rw [hhigh]
  push_cast
  rfl

/-- All numbers in the interval of a float round to it. -/
theorem nearest_eq_of_contains {mantissa : ℕ} {exponent : ℤ} {x : ℚ}
    (hcanonical : Canonical mantissa exponent) (hpos : 0 < mantissa)
    (hcontains : (ofFloat mantissa exponent).Contains x) :
    Binary64.nearest x = mantissa * 2 ^ exponent := by
  have hscale : (ofFloat mantissa exponent).exponent = exponent - 2 := rfl
  have hparity : (ofFloat mantissa exponent).closed = true ↔ mantissa % 2 = 0 :=
    decide_eq_true_iff
  obtain ⟨hlow, hhigh, htie⟩ := hcontains
  rw [hscale, quarter_mul, ← le_div_iff₀ (two_zpow_pos _)] at hlow
  rw [hscale, quarter_mul, ← div_le_iff₀ (two_zpow_pos _), ofFloat_high] at hhigh
  rw [hparity, hscale, quarter_mul, quarter_mul, ← lt_div_iff₀ (two_zpow_pos _),
    ← div_lt_iff₀ (two_zpow_pos _), ofFloat_high] at htie
  rw [ofFloat_low hpos] at hlow htie
  -- Only a power of two has a smaller gap below it than above it.
  by_cases hpower : mantissa = 2 ^ 52 ∧ -1074 < exponent
  · rw [if_pos hpower] at hlow htie
    obtain ⟨rfl, hexponent⟩ := hpower
    push_cast at hlow hhigh htie ⊢
    rcases lt_or_ge (x / 2 ^ exponent) (2 ^ 52) with hbelow | habove
    · exact nearest_eq_of_lt_two_pow hexponent (by linarith) hbelow
    · have hnearest := hcanonical.nearest_eq hpos (x := x) (by push_cast; linarith)
        (by push_cast; linarith) (.inl (by norm_num)) (.inl (by exact_mod_cast habove))
      exact_mod_cast hnearest
  · rw [if_neg hpower] at hlow htie
    apply hcanonical.nearest_eq hpos (by linarith) (by linarith)
    · exact htie.imp_right fun hstrict => ⟨by linarith [hstrict.1], by linarith [hstrict.2]⟩
    · rcases hcanonical.normal with hnormal | hleast
      · rcases hnormal.lt_or_eq with hmore | heq
        · exact .inr (.inl hmore)
        · have hge := hcanonical.exponent_ge
          have hnot : ¬-1074 < exponent := fun hlt => hpower ⟨heq.symm, hlt⟩
          exact .inr (.inr (by omega))
      · exact .inr (.inr hleast)

/-! ## Comparisons over a common denominator -/

/-- The common denominator of a power of ten and a power of two. -/
def denominator (interval : Interval) (step : ℤ) : ℚ :=
  10 ^ (-step).toNat * 2 ^ (-interval.exponent).toNat

theorem denominator_pos (interval : Interval) (step : ℤ) :
    0 < interval.denominator step := by
  rw [denominator]
  positivity

theorem pow_toNat {base : ℚ} (hbase : base ≠ 0) (exponent : ℤ) :
    base ^ exponent.toNat = base ^ exponent * base ^ (-exponent).toNat := by
  rw [← zpow_natCast, ← zpow_natCast, ← zpow_add₀ hbase]
  congr 1
  omega

theorem cast_gridPoint (interval : Interval) (step : ℤ) (digits : ℕ) :
    (interval.gridPoint step digits : ℚ) =
      digits * 10 ^ step * interval.denominator step := by
  have hpower : (10 : ℚ) ^ step.toNat = _ := pow_toNat (by norm_num) step
  have hpoint : interval.gridPoint step digits =
      digits * 10 ^ step.toNat * 2 ^ (-interval.exponent).toNat := rfl
  rw [hpoint, denominator]
  push_cast
  rw [hpower]
  ring

theorem cast_quarters (interval : Interval) (step : ℤ) (count : ℕ) :
    (interval.quarters step count : ℚ) =
      count * 2 ^ interval.exponent * interval.denominator step := by
  have hpower : (2 : ℚ) ^ interval.exponent.toNat = _ :=
    pow_toNat two_ne_zero interval.exponent
  have hquarters : interval.quarters step count =
      count * 2 ^ interval.exponent.toNat * 10 ^ (-step).toNat := rfl
  rw [hquarters, denominator]
  push_cast
  rw [hpower]
  ring

theorem quarters_le_gridPoint_iff {interval : Interval} {step : ℤ}
    {count digits : ℕ} :
    interval.quarters step count ≤ interval.gridPoint step digits ↔
      (count : ℚ) * 2 ^ interval.exponent ≤ digits * 10 ^ step := by
  rw [← Nat.cast_le (α := ℚ), cast_quarters, cast_gridPoint,
    mul_le_mul_iff_left₀ (interval.denominator_pos step)]

theorem gridPoint_le_quarters_iff {interval : Interval} {step : ℤ}
    {count digits : ℕ} :
    interval.gridPoint step digits ≤ interval.quarters step count ↔
      (digits : ℚ) * 10 ^ step ≤ count * 2 ^ interval.exponent := by
  rw [← Nat.cast_le (α := ℚ), cast_quarters, cast_gridPoint,
    mul_le_mul_iff_left₀ (interval.denominator_pos step)]

theorem contains_of_holds {interval : Interval} {step : ℤ} {digits : ℕ}
    (hholds : interval.holds step digits = true) :
    interval.Contains (digits * 10 ^ step) := by
  simp only [holds] at hholds
  split at hholds
  case isTrue hclosed =>
    rw [Bool.and_eq_true, decide_eq_true_eq, decide_eq_true_eq,
      quarters_le_gridPoint_iff, gridPoint_le_quarters_iff] at hholds
    exact ⟨hholds.1, hholds.2, .inl hclosed⟩
  case isFalse =>
    rw [Bool.and_eq_true, decide_eq_true_eq, decide_eq_true_eq, ← not_le, ← not_le,
      quarters_le_gridPoint_iff, gridPoint_le_quarters_iff, not_le, not_le] at hholds
    exact contains_of_lt hholds.1 hholds.2

/-! ## The search -/

theorem nearest_eq_or (interval : Interval) (tie : Tie) (step : ℤ) :
    interval.nearest tie step = interval.below step ∨
      interval.nearest tie step = interval.below step + 1 := by
  simp only [nearest]
  split
  · exact .inl rfl
  · split
    · exact .inr rfl
    · cases tie with
      | toEven =>
        simp only
        split
        · exact .inl rfl
        · exact .inr rfl
      | awayFromZero => exact .inr rfl

theorem holds_of_pick {interval : Interval} {tie : Tie} {step : ℤ} {digits : ℕ}
    (hpick : interval.pick tie step = some digits) :
    interval.holds step digits = true := by
  simp only [pick] at hpick
  split at hpick
  case h_1 hbelow habove =>
    obtain rfl := Option.some.inj hpick
    rcases interval.nearest_eq_or tie step with heq | heq
    · rw [heq]
      exact hbelow
    · rw [heq]
      exact habove
  case h_2 hbelow habove =>
    obtain rfl := Option.some.inj hpick
    exact hbelow
  case h_3 hbelow habove =>
    obtain rfl := Option.some.inj hpick
    exact habove
  case h_4 => cases hpick

theorem gridPoint_eq_mul (interval : Interval) (step : ℤ) (digits : ℕ) :
    interval.gridPoint step digits = digits * interval.gridPoint step 1 := by
  rw [gridPoint, gridPoint, Nat.one_mul, Nat.mul_assoc]

theorem gridPoint_one_pos (interval : Interval) (step : ℤ) :
    0 < interval.gridPoint step 1 := by
  rw [← Nat.cast_pos (α := ℚ), cast_gridPoint, Nat.cast_one, one_mul]
  exact mul_pos (ten_zpow_pos _) (interval.denominator_pos step)

/-- The chosen neighbour is at most half a step away from the centre. -/
theorem two_mul_nearest (interval : Interval) (tie : Tie) (step : ℤ) :
    2 * interval.gridPoint step (interval.nearest tie step) ≤
        2 * interval.quarters step interval.centre + interval.gridPoint step 1 ∧
      2 * interval.quarters step interval.centre ≤
        2 * interval.gridPoint step (interval.nearest tie step) +
          interval.gridPoint step 1 := by
  have hbelow : interval.below step * interval.gridPoint step 1 ≤
      interval.quarters step interval.centre := Nat.div_mul_le_self _ _
  have habove : interval.quarters step interval.centre <
      interval.gridPoint step 1 * (interval.below step + 1) :=
    Nat.lt_mul_div_succ _ (interval.gridPoint_one_pos step)
  have hsucc : interval.gridPoint step (interval.below step + 1) =
      interval.gridPoint step (interval.below step) + interval.gridPoint step 1 := by
    rw [gridPoint_eq_mul, gridPoint_eq_mul interval step (interval.below step),
      Nat.succ_mul]
  rw [Nat.mul_comm, ← gridPoint_eq_mul, hsucc] at habove
  rw [← gridPoint_eq_mul] at hbelow
  simp only [nearest]
  split
  case isTrue hless =>
    rw [hsucc] at hless
    omega
  case isFalse hmore =>
    rw [hsucc] at hmore
    split
    case isTrue =>
      rw [hsucc]
      omega
    case isFalse hless =>
      rw [hsucc] at hless
      cases tie with
      | toEven =>
        simp only
        split
        · omega
        · rw [hsucc]
          omega
      | awayFromZero =>
        rw [hsucc]
        omega

theorem nearest_near_centre (interval : Interval) (tie : Tie) (step : ℤ) :
    interval.nearest tie step * 10 ^ step ≤
        interval.centre * 2 ^ interval.exponent + (10 : ℚ) ^ step / 2 ∧
      interval.centre * 2 ^ interval.exponent ≤
        interval.nearest tie step * 10 ^ step + (10 : ℚ) ^ step / 2 := by
  obtain ⟨hhigh, hlow⟩ := interval.two_mul_nearest tie step
  have hdenominator := interval.denominator_pos step
  rw [← Nat.cast_le (α := ℚ), Nat.cast_add, Nat.cast_mul, Nat.cast_mul,
    cast_gridPoint, cast_gridPoint, cast_quarters] at hhigh hlow
  push_cast at hhigh hlow
  constructor
  · apply le_of_mul_le_mul_right _ hdenominator
    linarith
  · apply le_of_mul_le_mul_right _ hdenominator
    linarith

/-- Seventeen digits are so dense that the nearest point is in the interval. -/
theorem contains_nearest {mantissa : ℕ} {exponent step : ℤ} (tie : Tie)
    (hcanonical : Canonical mantissa exponent) (hpos : 0 < mantissa)
    (hstep : (10 : ℚ) ^ step * 10 ^ 16 ≤ mantissa * 2 ^ exponent) :
    (ofFloat mantissa exponent).Contains
      ((ofFloat mantissa exponent).nearest tie step * 10 ^ step) := by
  have hscale : (ofFloat mantissa exponent).exponent = exponent - 2 := rfl
  have hcentre : (ofFloat mantissa exponent).centre = 4 * mantissa := rfl
  obtain ⟨hhigh, hlow⟩ := (ofFloat mantissa exponent).nearest_near_centre tie step
  rw [hcentre, hscale, quarter_mul] at hhigh hlow
  have hsucc : ((mantissa : ℚ) + 1) * 2 ^ exponent ≤ 2 ^ 53 * 2 ^ exponent :=
    mul_two_zpow_le hcanonical.succ_le exponent
  have hplace := two_zpow_pos exponent
  push_cast at hhigh hlow
  apply contains_of_lt
  · rw [hscale, quarter_mul, ofFloat_low hpos]
    split
    case isTrue hpower =>
      rw [hpower.1] at hstep hlow ⊢
      push_cast at hstep hlow ⊢
      linarith
    case isFalse => linarith
  · rw [hscale, quarter_mul, ofFloat_high]
    linarith

end Interval

/-! ## The whole search -/

/-- The first grid is that of the leading digit. -/
theorem ten_zpow_leadingExponent_le {numerator denominator : ℕ}
    (hnumerator : 0 < numerator) (hdenominator : 0 < denominator) :
    (10 : ℚ) ^ leadingExponent numerator denominator ≤ numerator / denominator := by
  have hcast : (0 : ℚ) < denominator := by exact_mod_cast hdenominator
  rw [le_div_iff₀ hcast, leadingExponent]
  split
  case isTrue hle =>
    have hquotient : 0 < numerator / denominator := Nat.div_pos hle hdenominator
    have hcount := digitCount_pos (numerator / denominator)
    have hnumber : 10 ^ (digitCount (numerator / denominator) - 1) * denominator ≤
        numerator :=
      (Nat.le_div_iff_mul_le hdenominator).mp (ten_pow_digitCount_le hquotient)
    rw [show (digitCount (numerator / denominator) : ℤ) - 1 =
      ((digitCount (numerator / denominator) - 1 : ℕ) : ℤ) by omega, zpow_natCast]
    exact_mod_cast hnumber
  case isFalse hless =>
    have hnumber : denominator ≤
        numerator * 10 ^ digitCount ((denominator - 1) / numerator) := by
      have hlt := Nat.lt_mul_of_div_lt
        (lt_ten_pow_digitCount ((denominator - 1) / numerator)) hnumerator
      rw [Nat.mul_comm]
      omega
    rw [zpow_neg, zpow_natCast, mul_comm, ← div_eq_mul_inv, div_le_iff₀ (by positivity)]
    exact_mod_cast hnumber

/-- No number has a digit in front of its leading one. -/
theorem lt_ten_zpow_leadingExponent_succ {numerator denominator : ℕ}
    (hnumerator : 0 < numerator) (hdenominator : 0 < denominator) :
    (numerator : ℚ) / denominator < 10 ^ (leadingExponent numerator denominator + 1) := by
  have hcast : (0 : ℚ) < denominator := by exact_mod_cast hdenominator
  rw [div_lt_iff₀ hcast, leadingExponent]
  split
  case isTrue hle =>
    have hnumber : numerator < 10 ^ digitCount (numerator / denominator) * denominator :=
      (Nat.div_lt_iff_lt_mul hdenominator).mp (lt_ten_pow_digitCount _)
    rw [Int.sub_add_cancel, zpow_natCast]
    exact_mod_cast hnumber
  case isFalse hless =>
    obtain ⟨count, hcount⟩ :
        ∃ count, digitCount ((denominator - 1) / numerator) = count + 1 :=
      Nat.exists_eq_succ_of_ne_zero (digitCount_pos _).ne'
    have hquotient : 0 < (denominator - 1) / numerator :=
      Nat.div_pos (by omega) hnumerator
    have hleast := ten_pow_digitCount_le hquotient
    rw [hcount, Nat.add_sub_cancel, Nat.le_div_iff_mul_le hnumerator] at hleast
    have hnumber : numerator * 10 ^ count < denominator := by
      rw [Nat.mul_comm]
      omega
    rw [hcount, show -((count + 1 : ℕ) : ℤ) + 1 = -(count : ℤ) by omega, zpow_neg,
      zpow_natCast, mul_comm, ← div_eq_mul_inv, lt_div_iff₀ (by positivity)]
    exact_mod_cast hnumber

/-- A number as the fraction that the search starts from. -/
theorem mul_two_zpow_eq_div (mantissa : ℕ) (exponent : ℤ) :
    (mantissa : ℚ) * 2 ^ exponent = (mantissa * Nat.pow 2 exponent.toNat : ℕ) /
      (Nat.pow 2 (-exponent).toNat : ℕ) := by
  have hpower : (2 : ℚ) ^ exponent.toNat = _ :=
    Interval.pow_toNat two_ne_zero exponent
  rw [Nat.pow_eq, Nat.pow_eq, eq_div_iff (by positivity)]
  push_cast
  rw [hpower]
  ring

theorem contains_firstGrid {mantissa : ℕ} {exponent : ℤ} (tie : Tie)
    (hcanonical : Canonical mantissa exponent) (hpos : 0 < mantissa) (finer : ℕ) :
    ∀ step : ℤ, (10 : ℚ) ^ (step - finer) * 10 ^ 16 ≤ mantissa * 2 ^ exponent →
      (Interval.ofFloat mantissa exponent).Contains
        (firstGrid (Interval.ofFloat mantissa exponent) tie finer step).value := by
  induction finer with
  | zero =>
    -- The last grid takes its nearest point without a check.
    intro step hstep
    rw [Nat.cast_zero, sub_zero] at hstep
    exact Interval.contains_nearest tie hcanonical hpos hstep
  | succ finer ih =>
    intro step hstep
    rw [firstGrid]
    cases hpick : (Interval.ofFloat mantissa exponent).pick tie step with
    | none =>
      apply ih
      rwa [show step - 1 - (finer : ℤ) = step - ((finer + 1 : ℕ) : ℤ) by omega]
    | some digits => exact Interval.contains_of_holds (Interval.holds_of_pick hpick)

theorem Scientific.value_normalised (decimal : Scientific) :
    decimal.normalised.value = decimal.value := by
  obtain ⟨digits, exponent⟩ := decimal
  simp only [Scientific.normalised]
  split
  case isTrue hdivides =>
    have hdigits : digits = digits / 10 * 10 := by omega
    have hcast : (digits : ℚ) = (digits / 10 : ℕ) * 10 := by exact_mod_cast hdigits
    simp only [Scientific.value]
    rw [hcast, zpow_add_one₀ (by norm_num)]
    ring
  case isFalse => rfl

/-- Every float is the one that is nearest to its shortest digits. -/
theorem nearest_value_shortest {mantissa : ℕ} {exponent : ℤ} (tie : Tie)
    (hcanonical : Canonical mantissa exponent) (hpos : 0 < mantissa) :
    nearest (shortest tie mantissa exponent).value = mantissa * 2 ^ exponent := by
  have hleading : (10 : ℚ) ^ leadingExponent (mantissa * Nat.pow 2 exponent.toNat)
      (Nat.pow 2 (-exponent).toNat) ≤ mantissa * 2 ^ exponent := by
    rw [mul_two_zpow_eq_div]
    exact ten_zpow_leadingExponent_le
      (Nat.mul_pos hpos (Nat.two_pow_pos _)) (Nat.two_pow_pos _)
  rw [shortest, Scientific.value_normalised]
  apply Interval.nearest_eq_of_contains hcanonical hpos
  apply contains_firstGrid tie hcanonical hpos
  calc (10 : ℚ) ^ (leadingExponent (mantissa * Nat.pow 2 exponent.toNat)
          (Nat.pow 2 (-exponent).toNat) - (16 : ℕ)) * 10 ^ 16 =
        10 ^ leadingExponent (mantissa * Nat.pow 2 exponent.toNat)
          (Nat.pow 2 (-exponent).toNat) := by
        rw [zpow_sub₀ (by norm_num), zpow_natCast, div_mul_cancel₀ _ (by norm_num)]
    _ ≤ mantissa * 2 ^ exponent := hleading

namespace Interval

theorem gridPoint_below_le (interval : Interval) (step : ℤ) :
    (interval.below step : ℚ) * 10 ^ step ≤ interval.centre * 2 ^ interval.exponent := by
  rw [← gridPoint_le_quarters_iff, gridPoint_eq_mul]
  exact Nat.div_mul_le_self _ _

theorem le_below_succ_of_pick {interval : Interval} {tie : Tie} {step : ℤ} {digits : ℕ}
    (hpick : interval.pick tie step = some digits) : digits ≤ interval.below step + 1 := by
  simp only [pick] at hpick
  split at hpick
  case h_1 =>
    obtain rfl := Option.some.inj hpick
    rcases interval.nearest_eq_or tie step with heq | heq <;> omega
  case h_2 =>
    obtain rfl := Option.some.inj hpick
    omega
  case h_3 =>
    obtain rfl := Option.some.inj hpick
    exact le_rfl
  case h_4 => cases hpick

end Interval

/-- On the grids of the search a number has at most seventeen digits. -/
theorem digits_firstGrid_le (mantissa : ℕ) (exponent : ℤ) (tie : Tie) (finer : ℕ) :
    ∀ step : ℤ, (mantissa : ℚ) * 2 ^ exponent < 10 ^ (step - finer) * 10 ^ 17 →
      (firstGrid (Interval.ofFloat mantissa exponent) tie finer step).digits ≤ 10 ^ 17 := by
  have hbelow : ∀ {step : ℤ}, (mantissa : ℚ) * 2 ^ exponent < 10 ^ step * 10 ^ 17 →
      (Interval.ofFloat mantissa exponent).below step + 1 ≤ 10 ^ 17 := by
    intro step hstep
    have hcentre : ((Interval.ofFloat mantissa exponent).centre : ℚ) *
        2 ^ (Interval.ofFloat mantissa exponent).exponent = mantissa * 2 ^ exponent := by
      change ((4 * mantissa : ℕ) : ℚ) * 2 ^ (exponent - 2) = _
      rw [Interval.quarter_mul]
      push_cast
      ring
    have hpoint := (Interval.ofFloat mantissa exponent).gridPoint_below_le step
    have hless : ((Interval.ofFloat mantissa exponent).below step : ℚ) < 10 ^ 17 := by
      apply lt_of_mul_lt_mul_right _ (ten_zpow_pos step).le
      linarith
    exact_mod_cast hless
  induction finer with
  | zero =>
    intro step hstep
    rw [Nat.cast_zero, sub_zero] at hstep
    have hless := hbelow hstep
    change (Interval.ofFloat mantissa exponent).nearest tie step ≤ 10 ^ 17
    rcases (Interval.ofFloat mantissa exponent).nearest_eq_or tie step with heq | heq <;> omega
  | succ finer ih =>
    intro step hstep
    rw [firstGrid]
    cases hpick : (Interval.ofFloat mantissa exponent).pick tie step with
    | none =>
      apply ih
      rwa [show step - 1 - (finer : ℤ) = step - ((finer + 1 : ℕ) : ℤ) by omega]
    | some digits =>
      have hfiner : (10 : ℚ) ^ (step - ((finer + 1 : ℕ) : ℤ)) ≤ 10 ^ step :=
        zpow_le_zpow_right₀ (by norm_num) (by omega)
      have hless := hbelow (hstep.trans_le (mul_le_mul_of_nonneg_right hfiner (by norm_num)))
      exact (Interval.le_below_succ_of_pick hpick).trans hless

/-- The shortest digits are at most seventeen. -/
theorem digits_shortest_lt {mantissa : ℕ} (exponent : ℤ) (tie : Tie) (hpos : 0 < mantissa) :
    (shortest tie mantissa exponent).digits < 10 ^ 17 := by
  have hleading : (mantissa : ℚ) * 2 ^ exponent < 10 ^ (leadingExponent
      (mantissa * Nat.pow 2 exponent.toNat) (Nat.pow 2 (-exponent).toNat) + 1) := by
    rw [mul_two_zpow_eq_div]
    exact lt_ten_zpow_leadingExponent_succ
      (Nat.mul_pos hpos (Nat.two_pow_pos _)) (Nat.two_pow_pos _)
  have hstep (leading : ℤ) :
      (10 : ℚ) ^ (leading + 1) = 10 ^ (leading - (16 : ℕ)) * 10 ^ 17 := by
    rw [← zpow_natCast (10 : ℚ) 17, ← zpow_add₀ (by norm_num)]
    congr 1
    push_cast
    ring
  have hdigits := digits_firstGrid_le mantissa exponent tie 16 _ (hstep _ ▸ hleading)
  rw [shortest, Scientific.normalised]
  split
  case isTrue => exact (Nat.div_le_div_right hdigits).trans_lt (by norm_num)
  case isFalse hlast =>
    refine lt_of_le_of_ne hdigits fun heq => hlast ?_
    rw [heq]
    norm_num

theorem Scientific.digits_pos_of_nearest_eq {mantissa : ℕ} {exponent : ℤ}
    {decimal : Scientific} (hpos : 0 < mantissa)
    (hnearest : nearest decimal.value = mantissa * 2 ^ exponent) :
    0 < decimal.digits := by
  have hcast : (0 : ℚ) < mantissa := by exact_mod_cast hpos
  apply Nat.pos_of_ne_zero
  intro hzero
  rw [Scientific.value, hzero, Nat.cast_zero, zero_mul, nearest_zero] at hnearest
  exact (mul_pos hcast (two_zpow_pos exponent)).ne hnearest

/-- Any decimal that spells the number of the shortest digits is read as the
float that they belong to. -/
theorem unpack_toFloat_of_value_eq {mantissa : ℕ} {exponent : ℤ} {tie : Tie}
    {decimal : Scientific} (hcanonical : Canonical mantissa exponent)
    (hexponent : exponent ≤ 971) (hpos : 0 < mantissa)
    (hvalue : decimal.value = (shortest tie mantissa exponent).value) :
    decimal.toFloat.toModel.unpack =
      assemble .positive mantissa exponent := by
  have hnearest : nearest decimal.value = mantissa * 2 ^ exponent := by
    rw [hvalue]
    exact nearest_value_shortest tie hcanonical hpos
  have hdigits := Scientific.digits_pos_of_nearest_eq hpos hnearest
  exact unpack_eq_of_rounds (Scientific.rounds_toFloat hdigits) hcanonical hexponent
    hpos hnearest

end TournamentScoring.Decimal
