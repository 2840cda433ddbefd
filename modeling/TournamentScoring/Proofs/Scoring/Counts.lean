import TournamentScoring.Proofs.Binary64.WholeNumbers
import TournamentScoring.Scoring.Part

/-!
# Points for counts

A part that pays nothing or something for each unit never pays less for a larger count,
and a count above the cap is treated as the cap.  Both hold of the rounded product with
its overflow: a product that fits is still in range for every smaller count.
-/

namespace TournamentScoring.Part

open TournamentScoring.Binary64

/-! ## Units -/

theorem isCount_iff {count : Float} :
    isCount count = true ↔ count.isFinite = true ∧ 0 ≤ value count := by
  rw [isCount, Bool.and_eq_true, and_congr_right_iff]
  intro hfinite
  rw [Bool.not_eq_true', decide_eq_false_iff_not, lt_zero_iff hfinite, not_lt]

theorem isFinite_cappedUnits {count : Float} (hcount : count.isFinite = true)
    (maxValue : Option UInt32) : (cappedUnits count maxValue).isFinite = true := by
  cases maxValue with
  | none => exact hcount
  | some cap =>
    rw [cappedUnits]
    split
    · exact hcount
    · exact (isWhole_toFloat cap).isFinite

theorem value_cappedUnits {count : Float} (hcount : count.isFinite = true) (cap : UInt32) :
    value (cappedUnits count (some cap)) = min (value count) (value cap.toFloat) := by
  have hless := lt_iff_value_lt hcount (isWhole_toFloat cap).isFinite
  rw [cappedUnits]
  split
  · next hbelow => exact (min_eq_left (hless.mp hbelow).le).symm
  · next hbelow => exact (min_eq_right (not_lt.mp (hless.not.mp hbelow))).symm

theorem value_cappedUnits_le {count more : Float} (hcount : count.isFinite = true)
    (hmore : more.isFinite = true) (hle : value count ≤ value more)
    (maxValue : Option UInt32) :
    value (cappedUnits count maxValue) ≤ value (cappedUnits more maxValue) := by
  cases maxValue with
  | none => exact hle
  | some cap =>
    rw [value_cappedUnits hcount, value_cappedUnits hmore]
    exact min_le_min_right _ hle

theorem value_cappedUnits_nonneg {count : Float} (hcount : count.isFinite = true)
    (hnonneg : 0 ≤ value count) (maxValue : Option UInt32) :
    0 ≤ value (cappedUnits count maxValue) := by
  cases maxValue with
  | none => exact hnonneg
  | some cap =>
    rw [value_cappedUnits hcount, (isWhole_toFloat cap).value_eq]
    exact le_min hnonneg (by positivity)

/-- At the cap and above it, the cap itself is paid. -/
theorem cappedUnits_of_not_lt {count : Float} {cap : UInt32} (hcount : ¬count < cap.toFloat) :
    cappedUnits count (some cap) = cap.toFloat :=
  if_neg hcount

/-! ## Points -/

/-- What a unit is worth where more units are never worth less. -/
structure PaysPerUnit (part : Part) (pointsPerUnit : Float)
    (maxValue : Option UInt32) : Prop where
  kind_eq : part.kind = .number pointsPerUnit maxValue
  isFinite : pointsPerUnit.isFinite = true
  nonneg : 0.0 ≤ pointsPerUnit

namespace PaysPerUnit

variable {part : Part} {pointsPerUnit : Float} {maxValue : Option UInt32}

/-- A part that pays per unit refuses whatever is no count. -/
theorem score_eq (hpays : part.PaysPerUnit pointsPerUnit maxValue) (raw : RawValue) :
    part.score raw =
      match raw with
      | .number count =>
        if !isCount count then part.refuse (.notACount count)
        else if (cappedUnits count maxValue * pointsPerUnit).isFinite then
          .ok (cappedUnits count maxValue * pointsPerUnit)
        else part.refuse (.overflow count)
      | raw => part.refuse (.wrongKind (.number pointsPerUnit maxValue) raw) := by
  unfold score
  rw [hpays.kind_eq]
  cases raw <;> rfl

theorem score_number (hpays : part.PaysPerUnit pointsPerUnit maxValue) {count : Float}
    (hcount : isCount count = true) :
    part.score (.number count) =
      if (cappedUnits count maxValue * pointsPerUnit).isFinite then
        .ok (cappedUnits count maxValue * pointsPerUnit)
      else .error (.invalidPartValue part.id (.overflow count)) := by
  rw [hpays.score_eq]
  exact if_neg (by simp [hcount])

/-- Only counts with points in range are accepted. -/
theorem score_eq_ok_iff (hpays : part.PaysPerUnit pointsPerUnit maxValue) {raw : RawValue}
    {points : Float} :
    part.score raw = .ok points ↔
      ∃ count, raw = .number count ∧ isCount count = true ∧
        points = cappedUnits count maxValue * pointsPerUnit ∧ points.isFinite = true := by
  constructor
  · intro hscore
    rw [hpays.score_eq] at hscore
    cases raw with
    | flag value | other value => cases hscore
    | number count =>
      cases hcount : isCount count with
      | false =>
        simp only [hcount, Bool.not_false, if_true] at hscore
        cases hscore
      | true =>
        simp only [hcount, Bool.not_true, Bool.false_eq_true, if_false] at hscore
        split at hscore
        · next hfinite =>
          cases hscore
          exact ⟨count, rfl, hcount, rfl, hfinite⟩
        · cases hscore
  · rintro ⟨count, rfl, hcount, rfl, hfinite⟩
    rw [hpays.score_number hcount, if_pos hfinite]

theorem value_nonneg (hpays : part.PaysPerUnit pointsPerUnit maxValue) :
    0 ≤ value pointsPerUnit :=
  (zero_le_iff_value hpays.isFinite).mp hpays.nonneg

/-- The points of fewer units: none are negative, and they are in range where those of
more units are. -/
theorem points_of_fewer (hpays : part.PaysPerUnit pointsPerUnit maxValue) {units more : Float}
    (hunits : units.isFinite = true) (hmore : more.isFinite = true)
    (hnonneg : 0 ≤ value units) (hle : value units ≤ value more)
    (hpoints : (more * pointsPerUnit).isFinite = true) :
    (units * pointsPerUnit).isFinite = true ∧ 0.0 ≤ units * pointsPerUnit ∧
      units * pointsPerUnit ≤ more * pointsPerUnit := by
  have hrounds := rounds_mul hunits hpays.isFinite
  have hbound := (rounds_mul hmore hpays.isFinite).isFinite_iff.mp hpoints
  have hproduct : 0 ≤ value units * value pointsPerUnit :=
    mul_nonneg hnonneg hpays.value_nonneg
  have hproducts : value units * value pointsPerUnit ≤ value more * value pointsPerUnit :=
    mul_le_mul_of_nonneg_right hle hpays.value_nonneg
  have hrange : |value units * value pointsPerUnit| < overflowBound := by
    rw [abs_of_nonneg hproduct]
    exact hproducts.trans_lt (lt_of_abs_lt hbound)
  have hzero : Rounds 0 (0.0 : Float).toModel.unpack := rounds_zero .positive
  exact ⟨hrounds.isFinite_iff.mpr hrange, hzero.le hrounds hproduct,
    hrounds.le (rounds_mul hmore hpays.isFinite) hproducts⟩

/-- A count below an accepted one is accepted and earns no more. -/
theorem score_of_fewer (hpays : part.PaysPerUnit pointsPerUnit maxValue) {count more : Float}
    (hcount : isCount count = true) (hle : count ≤ more) {points : Float}
    (hscore : part.score (.number more) = .ok points) :
    ∃ fewer, part.score (.number count) = .ok fewer ∧ fewer ≤ points := by
  obtain ⟨_, hraw, hmore, rfl, hpoints⟩ := hpays.score_eq_ok_iff.mp hscore
  cases hraw
  have ⟨hfinite, hnonneg⟩ := isCount_iff.mp hcount
  have hmoreFinite := (isCount_iff.mp hmore).1
  have hunits := value_cappedUnits_le hfinite hmoreFinite
    ((le_iff_value_le hfinite hmoreFinite).mp hle) maxValue
  have hpaid := hpays.points_of_fewer (isFinite_cappedUnits hfinite maxValue)
    (isFinite_cappedUnits hmoreFinite maxValue)
    (value_cappedUnits_nonneg hfinite hnonneg maxValue) hunits hpoints
  exact ⟨_, hpays.score_eq_ok_iff.mpr ⟨count, rfl, hcount, rfl, hpaid.1⟩, hpaid.2.2⟩

variable {cap : UInt32}

theorem isCount_toFloat (number : UInt32) : isCount number.toFloat = true := by
  have hwhole := isWhole_toFloat number
  refine isCount_iff.mpr ⟨hwhole.isFinite, ?_⟩
  rw [hwhole.value_eq]
  positivity

/-- The cap itself, and what earns as much. -/
theorem score_of_not_lt_cap (hpays : part.PaysPerUnit pointsPerUnit (some cap)) {count : Float}
    (hcount : isCount count = true) (hcap : ¬count < cap.toFloat) :
    part.score (.number count) =
      if (cap.toFloat * pointsPerUnit).isFinite then .ok (cap.toFloat * pointsPerUnit)
      else .error (.invalidPartValue part.id (.overflow count)) := by
  rw [hpays.score_number hcount, cappedUnits_of_not_lt hcap]

theorem score_cap (hpays : part.PaysPerUnit pointsPerUnit (some cap)) :
    part.score (.number cap.toFloat) =
      if (cap.toFloat * pointsPerUnit).isFinite then .ok (cap.toFloat * pointsPerUnit)
      else .error (.invalidPartValue part.id (.overflow cap.toFloat)) := by
  have hfinite := (isWhole_toFloat cap).isFinite
  apply hpays.score_of_not_lt_cap (isCount_toFloat cap)
  rw [lt_iff_value_lt hfinite hfinite]
  exact lt_irrefl _

/-- Above the cap the points or the refusal are those of the cap, but a refusal names the
count that was given. -/
theorem score_above_cap (hpays : part.PaysPerUnit pointsPerUnit (some cap)) {count : Float}
    (hfinite : count.isFinite = true) (habove : cap.toFloat < count) :
    (∀ points, part.score (.number cap.toFloat) = .ok points →
      part.score (.number count) = .ok points) ∧
    ∀ cause, part.score (.number cap.toFloat) = .error cause →
      cause = .invalidPartValue part.id (.overflow cap.toFloat) ∧
      part.score (.number count) = .error (.invalidPartValue part.id (.overflow count)) := by
  have hcap := (isWhole_toFloat cap).isFinite
  have hless := (lt_iff_value_lt hcap hfinite).mp habove
  have hnonneg := (isCount_iff.mp (isCount_toFloat cap)).2
  have hcount : isCount count = true :=
    isCount_iff.mpr ⟨hfinite, hnonneg.trans hless.le⟩
  have hnot : ¬count < cap.toFloat := by
    rw [lt_iff_value_lt hfinite hcap]
    exact hless.not_gt
  rw [hpays.score_cap, hpays.score_of_not_lt_cap hcount hnot]
  by_cases hpoints : (cap.toFloat * pointsPerUnit).isFinite = true
  · rw [if_pos hpoints, if_pos hpoints]
    refine ⟨fun points heq => heq, fun cause heq => ?_⟩
    cases heq
  · rw [if_neg hpoints, if_neg hpoints]
    refine ⟨fun points heq => ?_, fun cause heq => ?_⟩
    · cases heq
    · cases heq
      exact ⟨rfl, rfl⟩

/-- The points of the cap are the most that a part can earn. -/
theorem points_le_of_cap (hpays : part.PaysPerUnit pointsPerUnit (some cap)) {most : Float}
    (hmost : part.score (.number cap.toFloat) = .ok most) {raw : RawValue} {points : Float}
    (hscore : part.score raw = .ok points) : 0.0 ≤ points ∧ points ≤ most := by
  rw [hpays.score_cap] at hmost
  split at hmost
  · next hcapPoints =>
    cases hmost
    obtain ⟨count, rfl, hcount, rfl, -⟩ := hpays.score_eq_ok_iff.mp hscore
    have ⟨hfinite, hnonneg⟩ := isCount_iff.mp hcount
    have hunits : value (cappedUnits count (some cap)) ≤ value cap.toFloat :=
      value_cappedUnits hfinite cap ▸ min_le_right _ _
    exact (hpays.points_of_fewer (isFinite_cappedUnits hfinite (some cap))
      (isWhole_toFloat cap).isFinite
      (value_cappedUnits_nonneg hfinite hnonneg (some cap)) hunits hcapPoints).2
  · cases hmost

end PaysPerUnit

/-- More units never earn less: a count below an accepted one is accepted with at most its
points.  A cap is a ceiling: every count above it earns what the cap earns or is refused
for the same fault, and no accepted value earns less than nothing or more than the cap. -/
theorem score_monotone_up_to_cap (part : Part) (pointsPerUnit : Float)
    (maxValue : Option UInt32) (hpays : part.PaysPerUnit pointsPerUnit maxValue) :
    (∀ count more points : Float, count.isFinite = true → 0.0 ≤ count → count ≤ more →
      part.score (.number more) = .ok points →
      ∃ fewer, part.score (.number count) = .ok fewer ∧ fewer ≤ points) ∧
    ∀ cap, maxValue = some cap →
      (∀ count : Float, count.isFinite = true → cap.toFloat < count →
        (∀ points, part.score (.number cap.toFloat) = .ok points →
          part.score (.number count) = .ok points) ∧
        ∀ cause, part.score (.number cap.toFloat) = .error cause →
          cause = .invalidPartValue part.id (.overflow cap.toFloat) ∧
          part.score (.number count) =
            .error (.invalidPartValue part.id (.overflow count))) ∧
      ∀ most, part.score (.number cap.toFloat) = .ok most →
        ∀ raw points, part.score raw = .ok points → 0.0 ≤ points ∧ points ≤ most := by
  constructor
  · intro count more points hfinite hnonneg hle hscore
    have hcount : isCount count = true :=
      isCount_iff.mpr ⟨hfinite, (zero_le_iff_value hfinite).mp hnonneg⟩
    exact hpays.score_of_fewer hcount hle hscore
  · rintro cap rfl
    refine ⟨fun count hfinite habove => hpays.score_above_cap hfinite habove, ?_⟩
    intro most hmost raw points hscore
    exact hpays.points_le_of_cap hmost hscore

/-- A part that pays `perUnit` up to a cap. -/
def cappedPart (perUnit : Float) (cap : UInt32) : Part :=
  ⟨"auto", "Auto", none, none, .number perUnit (some cap)⟩

/-- Two to the power of 1019: eight units are still in range, and 32 units are not. -/
def hugePayment : Float :=
  .ofBits 0x7FA0000000000000

/-- Twelve units earn what ten earn where the cap is ten.  Where the units of the cap
overflow, so do those above it, but eight units are still in range and so are seven. -/
theorem cappedPart_scores :
    (∃ fewer, (cappedPart hugePayment 64).score (.number 7.0) = .ok fewer ∧
        fewer ≤ 8.0 * hugePayment) ∧
      (cappedPart hugePayment 64).score (.number 65.5) =
        .error (.invalidPartValue "auto" (.overflow 65.5)) ∧
      (cappedPart 5.0 10).score (.number 12.0) = .ok 50.0 ∧
      ∀ raw points, (cappedPart 5.0 10).score raw = .ok points →
        0.0 ≤ points ∧ points ≤ 50.0 :=
  have hlarge : (cappedPart hugePayment 64).PaysPerUnit hugePayment (some 64) :=
    ⟨rfl, by decide +kernel, by decide +kernel⟩
  have hsmall : (cappedPart 5.0 10).PaysPerUnit 5.0 (some 10) :=
    ⟨rfl, by decide +kernel, by decide +kernel⟩
  have height : (cappedPart hugePayment 64).score (.number 8.0) =
      .ok (8.0 * hugePayment) := by rfl
  have hoverflow : (cappedPart hugePayment 64).score (.number (64 : UInt32).toFloat) =
      .error (.invalidPartValue "auto" (.overflow (64 : UInt32).toFloat)) := by rfl
  have hmost : (cappedPart 5.0 10).score (.number (10 : UInt32).toFloat) = .ok 50.0 := by rfl
  have large := score_monotone_up_to_cap _ _ _ hlarge
  have small := score_monotone_up_to_cap _ _ _ hsmall
  ⟨large.1 7.0 8.0 _ (by decide +kernel) (by decide +kernel) (by decide +kernel) height,
    (((large.2 64 rfl).1 65.5 (by decide +kernel) (by decide +kernel)).2 _ hoverflow).2,
    ((small.2 10 rfl).1 12.0 (by decide +kernel) (by decide +kernel)).1 50.0 hmost,
    (small.2 10 rfl).2 50.0 hmost⟩

end TournamentScoring.Part
