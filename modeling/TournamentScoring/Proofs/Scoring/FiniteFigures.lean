import TournamentScoring.Proofs.Binary64.Bounds
import TournamentScoring.Proofs.Profile.Violations
import TournamentScoring.Proofs.Scoring.Breakdown
import TournamentScoring.Proofs.Scoring.Judgements

/-!
# Finite figures

Only the points of a count and the value of the formula are checked for overflow.  The
other figures of a breakdown need no check: a bonus is lost beside the largest float, and a
penalty total stops growing long before it leaves the range.
-/

namespace TournamentScoring

open TournamentScoring.Binary64

/-! ## Penalty totals -/

theorem PenaltyDirection.isWithin_sign (direction : PenaltyDirection) :
    IsWithin direction.sign 0 := by
  cases direction with
  | add => exact isWhole_one.isWithin (by norm_num)
  | subtract => exact isWhole_one.neg.isWithin (by norm_num)

theorem PenaltyRule.isWithin_contribution (rule : PenaltyRule)
    (occurrences : KeyedTable UInt32) :
    IsWithin (rule.line occurrences).contribution 64 := by
  have hproduct := (isWithin_toFloat rule.points).mul
    (isWithin_toFloat ((occurrences.get? rule.id).getD 0)) (by norm_num)
  exact hproduct.mul rule.direction.isWithin_sign (by norm_num)

section Totals

variable {target : PenaltyTarget} {lines : List PenaltyLine} {total : Float}

/-- The total after one more line.  A contribution is so small beside `2 ^ 118` that it
does not carry the total over it. -/
theorem isWithin_step (htotal : IsWithin total 118) {line : PenaltyLine}
    (hline : IsWithin line.contribution 64) :
    IsWithin (if line.target = target then total + line.contribution else total) 118 := by
  split
  · exact htotal.add_small hline (by norm_num) (by norm_num)
  · exact htotal

theorem isWithin_foldl (htotal : IsWithin total 118)
    (hlines : ∀ line ∈ lines, IsWithin line.contribution 64) :
    IsWithin (lines.foldl (fun total line =>
      if line.target = target then total + line.contribution else total) total) 118 := by
  induction lines generalizing total with
  | nil => exact htotal
  | cons line rest ih =>
    rw [List.foldl_cons]
    apply ih (isWithin_step htotal (hlines line List.mem_cons_self))
    intro other hother
    exact hlines other (List.mem_cons_of_mem line hother)

theorem isWithin_totalOf (target : PenaltyTarget)
    (hlines : ∀ line ∈ lines, IsWithin line.contribution 64) :
    IsWithin (totalOf target lines) 118 :=
  isWithin_foldl (isWhole_zero.isWithin (by norm_num)) hlines

end Totals

/-! ## Points and bonuses -/

section Points

variable {x : Float} {exact : ℚ}

theorem IsPoints.of_rounds (hrounds : Rounds exact x.toModel.unpack) (hnonneg : 0 ≤ exact)
    (hfinite : x.isFinite = true) : IsPoints x := by
  have hzero : Rounds 0 (0.0 : Float).toModel.unpack := rounds_zero .positive
  exact ⟨hfinite, (zero_le_iff_value hfinite).mp (hzero.le hrounds hnonneg)⟩

theorem isPoints_toFloat (number : UInt32) : IsPoints number.toFloat :=
  Part.isCount_iff.mp (Part.PaysPerUnit.isCount_toFloat number)

/-- Points stay in range when a bonus is added, even to the largest float. -/
theorem IsPoints.add_toFloat (hx : IsPoints x) (number : UInt32) :
    IsPoints (x + number.toFloat) := by
  have hbonus := isWithin_toFloat number
  apply IsPoints.of_rounds (rounds_add hx.1 hbonus.isFinite)
  · exact add_nonneg hx.2 (isPoints_toFloat number).2
  · exact isFinite_add_of_isWithin hx.1 hbonus (by norm_num)

/-- What a value is worth that has no fault is points, if the part pays points. -/
theorem PartKind.isPoints_points {kind : PartKind} {raw : RawValue} (hpriced : kind.IsPriced)
    (hfault : kind.fault? raw = none) (hoverflow : kind.overflow? raw = none) :
    IsPoints (kind.points raw) := by
  cases kind with
  | number pointsPerUnit maxValue =>
    cases raw with
    | number count =>
      obtain ⟨hcount, hnonneg⟩ := Part.isCount_iff.mp (fault?_number_eq_none_iff.mp hfault)
      have hunits := Part.isFinite_cappedUnits hcount maxValue
      rw [overflow?_number_eq_none_iff, points] at hoverflow
      rw [points]
      apply IsPoints.of_rounds (rounds_mul hunits hpriced.1)
      · exact mul_nonneg (Part.value_cappedUnits_nonneg hcount hnonneg maxValue) hpriced.2
      · exact hoverflow
    | flag value | other value => cases hfault
  | boolean truePoints =>
    cases raw with
    | flag value =>
      cases value with
      | true => exact hpriced
      | false => exact isPoints_toFloat 0
    | number value | other value => cases hfault

end Points

namespace Part.Earns

variable {part : Part} {input : ScoreInput} {entry : PartScore}

theorem isPoints_points (hearns : part.Earns input entry) (hpriced : part.kind.IsPriced) :
    IsPoints entry.points := by
  obtain ⟨raw, -, hscore⟩ := hearns.points_eq
  rw [Part.score_eq] at hscore
  obtain ⟨hnone, heq⟩ := Part.judge_eq_ok_iff.mp hscore
  obtain ⟨hfault, hoverflow⟩ := Option.or_eq_none_iff.mp hnone
  rw [← heq]
  exact PartKind.isPoints_points hpriced hfault hoverflow

/-- A bonus is a whole number of points. -/
theorem exists_bonus_eq (hearns : part.Earns input entry) :
    ∃ number : UInt32, entry.bonus = number.toFloat := by
  cases hpart : part.cooperativeBonus with
  | none => exact ⟨0, hearns.no_bonus hpart⟩
  | some bonus =>
    obtain ⟨-, -, hpoints⟩ := CooperativeBonus.resolve_eq_ok (hearns.bonus_eq bonus hpart)
    rcases hpoints with ⟨-, hgranted⟩ | ⟨-, hnothing⟩
    · exact ⟨bonus.bonusPoints, hgranted⟩
    · exact ⟨0, hnothing⟩

theorem isPoints_bonus (hearns : part.Earns input entry) : IsPoints entry.bonus := by
  obtain ⟨number, hbonus⟩ := hearns.exists_bonus_eq
  rw [hbonus]
  exact isPoints_toFloat number

theorem isPoints_total (hearns : part.Earns input entry) (hpriced : part.kind.IsPriced) :
    IsPoints entry.total := by
  obtain ⟨number, hbonus⟩ := hearns.exists_bonus_eq
  rw [PartScore.total, hbonus]
  exact (hearns.isPoints_points hpriced).add_toFloat number

end Part.Earns

/-! ## A whole breakdown -/

/-- All figures are finite, and no part has a figure below zero. -/
structure ScoreBreakdown.HasFiniteFigures (breakdown : ScoreBreakdown) : Prop where
  points : ∀ entry ∈ breakdown.parts, IsPoints entry.points
  bonus : ∀ entry ∈ breakdown.parts, IsPoints entry.bonus
  total : ∀ entry ∈ breakdown.parts, IsPoints entry.total
  contribution : ∀ line ∈ breakdown.penalties, line.contribution.isFinite = true
  selfTotal : breakdown.penaltyTotals.selfTotal.isFinite = true
  opponentTotal : breakdown.penaltyTotals.opponentTotal.isFinite = true
  net : breakdown.penaltyTotals.net.isFinite = true
  formulaValue : breakdown.formulaValue.isFinite = true

section Breakdowns

variable {profile : Profile} {input : ScoreInput}

/-- Each entry of a breakdown is what one of the parts earns. -/
theorem exists_earns_of_mem (herrors : profile.inputErrors input = []) {formulaValue : Float}
    {entry : PartScore} (hentry : entry ∈ (profile.breakdown input formulaValue).parts) :
    ∃ part ∈ profile.parts, part.Earns input entry := by
  have hearns := forall₂_earns_breakdown herrors formulaValue
  obtain ⟨index, hindex, rfl⟩ := List.mem_iff_getElem.mp hentry
  have hlength := hearns.length_eq
  exact ⟨profile.parts[index], List.getElem_mem _,
    hearns.get (by rwa [hlength]) hindex⟩

theorem isWithin_penaltyTotals (profile : Profile) (input : ScoreInput) (formulaValue : Float)
    (target : PenaltyTarget) :
    IsWithin (totalOf target (profile.breakdown input formulaValue).penalties) 118 := by
  apply isWithin_totalOf
  intro line hline
  obtain ⟨rule, -, rfl⟩ := List.mem_map.mp hline
  exact rule.isWithin_contribution input.penalties

end Breakdowns

/-- A side of a well-formed profile that is scored has finite figures only, whatever the
number of parts and rules is. -/
theorem scored_figures_are_finite {profile : Profile} {input : ScoreInput}
    {settings : EngineSettings} {result : MatchScore}
    (hvalid : profile.structureIssues = [])
    (hresult : profile.scoreMatch input settings = .ok result) :
    result.breakdown.HasFiniteFigures := by
  obtain ⟨formulaValue, herrors, hvalue, rfl⟩ := scoreMatch_eq_ok hresult
  obtain ⟨-, -, -, hfinite⟩ := evaluateFormula_eq_ok hvalue
  have hpriced := (Profile.structureIssues_eq_nil_iff.mp hvalid).points
  have hself := isWithin_penaltyTotals profile input formulaValue .self
  have hopponent := isWithin_penaltyTotals profile input formulaValue .opponent
  constructor
  case points =>
    intro entry hentry
    obtain ⟨part, hpart, hearns⟩ := exists_earns_of_mem herrors hentry
    exact hearns.isPoints_points (hpriced part hpart)
  case bonus =>
    intro entry hentry
    obtain ⟨part, -, hearns⟩ := exists_earns_of_mem herrors hentry
    exact hearns.isPoints_bonus
  case total =>
    intro entry hentry
    obtain ⟨part, hpart, hearns⟩ := exists_earns_of_mem herrors hentry
    exact hearns.isPoints_total (hpriced part hpart)
  case contribution =>
    intro line hline
    obtain ⟨rule, -, rfl⟩ := List.mem_map.mp hline
    exact (rule.isWithin_contribution input.penalties).isFinite
  case selfTotal => exact hself.isFinite
  case opponentTotal => exact hopponent.isFinite
  case net => exact (hopponent.sub hself (by norm_num)).isFinite
  case formulaValue => exact hfinite

/-- One unit that is worth the largest float, with a bonus for pairs, and one rule. -/
def largestProfile : Profile where
  version := 1
  parts :=
    [⟨"auto", "Auto", none, some ⟨2, 4294967295, .perTeam, none⟩,
      .number (Float.ofBits 0x7FEFFFFFFFFFFFFF) (some 1)⟩]
  penalties := [⟨"foul", "Foul", none, 4294967295, .opponent, .add⟩]
  totalFormula := "auto + NET_PENALTIES"
  notes := none

def largestInput : ScoreInput where
  values := KeyedTable.empty.insert "auto" (.number 12.0)
  penalties := KeyedTable.empty.insert "foul" 4294967295
  cooperative := KeyedTable.empty.insert "auto" [.number 12.0, .number 1.0]

/-- The bonus and the calls leave the largest float as it is. -/
theorem largestProfile_figures :
    largestProfile.structureIssues = [] ∧
      ∃ result, largestProfile.scoreMatch largestInput EngineSettings.default = .ok result ∧
        result.score = Float.ofBits 0x7FEFFFFFFFFFFFFF ∧
        result.breakdown.HasFiniteFigures := by
  have hvalid : largestProfile.structureIssues = [] := by decide +kernel
  have herrors : largestProfile.inputErrors largestInput = [] := by rfl
  have hvalue : evaluateFormula largestProfile.totalFormula
      (largestProfile.symbols largestInput) EngineSettings.default =
        .ok (Float.ofBits 0x7FEFFFFFFFFFFFFF) := by
    decide +kernel
  have hresult : largestProfile.scoreMatch largestInput EngineSettings.default =
      .ok ⟨Float.ofBits 0x7FEFFFFFFFFFFFFF,
        largestProfile.breakdown largestInput (Float.ofBits 0x7FEFFFFFFFFFFFFF)⟩ := by
    rw [scoreMatch_of_inputErrors_eq_nil _ _ _ herrors, hvalue]
    rfl
  exact ⟨hvalid, _, hresult, rfl, scored_figures_are_finite hvalid hresult⟩

end TournamentScoring
