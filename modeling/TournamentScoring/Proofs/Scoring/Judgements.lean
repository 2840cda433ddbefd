import TournamentScoring.Proofs.Scoring.Counts

/-!
# Own values and group values

A raw value is judged at two places: as the own value of a part it earns points, and in a
group it is an achievement or a miss.  Both places look for the same fault first, and they
name it alike.  Only points can be out of range, and a miss is worth nothing.
-/

namespace TournamentScoring

open TournamentScoring.Binary64

/-! ## Faults and points -/

namespace PartKind

/-- The fault for which a raw value is refused wherever it stands. -/
def fault? : PartKind → RawValue → Option ValueFault
  | number _ _, .number count =>
    if Part.isCount count then none else some (.notACount count)
  | boolean _, .flag _ => none
  | kind, raw => some (.wrongKind kind raw)

/-- What a raw value without such a fault is worth. -/
def points : PartKind → RawValue → Float
  | number pointsPerUnit maxValue, .number count =>
    Part.cappedUnits count maxValue * pointsPerUnit
  | boolean truePoints, .flag value => if value then truePoints else 0.0
  | _, _ => 0.0

/-- The fault of a count whose points are out of range. -/
def overflow? (kind : PartKind) : RawValue → Option ValueFault
  | .number count =>
    if (kind.points (.number count)).isFinite then none else some (.overflow count)
  | _ => none

/-- What one unit or the flag is worth. -/
def rate : PartKind → Float
  | number pointsPerUnit _ => pointsPerUnit
  | boolean truePoints => truePoints

section

variable {pointsPerUnit count : Float} {maxValue : Option UInt32} {kind : PartKind}

theorem fault?_number_eq_none_iff :
    (number pointsPerUnit maxValue).fault? (.number count) = none ↔
      Part.isCount count = true := by
  simp only [fault?, ite_eq_left_iff, reduceCtorEq, imp_false, not_not]

theorem overflow?_number_eq_none_iff :
    kind.overflow? (.number count) = none ↔ (kind.points (.number count)).isFinite = true := by
  simp only [overflow?, ite_eq_left_iff, reduceCtorEq, imp_false, not_not]

end

end PartKind

/-- Whether a raw value without a fault is an achievement. -/
def RawValue.isAchievement : RawValue → Bool
  | number count => decide (0.0 < count)
  | flag value => value
  | other _ => false

namespace Part

/-- The judgement on a value for which these faults were looked for. -/
def judge {α : Type} (part : Part) (fault? : Option ValueFault) (verdict : α) :
    Except ScoringError α :=
  match fault? with
  | some fault => part.refuse fault
  | none => .ok verdict

theorem isAchieved_eq (part : Part) (raw : RawValue) :
    part.isAchieved raw = part.judge (part.kind.fault? raw) raw.isAchievement := by
  unfold isAchieved
  cases part.kind with
  | number pointsPerUnit maxValue =>
    cases raw with
    | number count =>
      cases hcount : isCount count
      all_goals
        simp only [PartKind.fault?, hcount]
        rfl
    | flag value | other value => rfl
  | boolean truePoints => cases raw <;> rfl

theorem score_eq (part : Part) (raw : RawValue) :
    part.score raw =
      part.judge ((part.kind.fault? raw).or (part.kind.overflow? raw))
        (part.kind.points raw) := by
  unfold score
  cases part.kind with
  | number pointsPerUnit maxValue =>
    cases raw with
    | number count =>
      cases hcount : isCount count
      all_goals
        cases hfinite : (cappedUnits count maxValue * pointsPerUnit).isFinite
        all_goals
          simp only [PartKind.fault?, PartKind.overflow?, PartKind.points, hcount, hfinite]
          rfl
    | flag value | other value => rfl
  | boolean truePoints => cases raw <;> rfl

section Judgements

variable {α : Type} {part : Part} {found? : Option ValueFault} {verdict result : α}
  {cause : ScoringError}

theorem judge_eq_error_iff :
    part.judge found? verdict = .error cause ↔
      ∃ fault, found? = some fault ∧ cause = .invalidPartValue part.id fault := by
  cases found? with
  | none => exact iff_of_false nofun (by rintro ⟨_, ⟨⟩, _⟩)
  | some fault =>
    constructor
    · intro herror
      exact ⟨fault, rfl, (Except.error.inj herror).symm⟩
    · rintro ⟨_, ⟨⟩, rfl⟩
      rfl

theorem judge_eq_ok_iff :
    part.judge found? verdict = .ok result ↔ found? = none ∧ verdict = result := by
  cases found? with
  | none => exact ⟨fun hok => ⟨rfl, Except.ok.inj hok⟩, fun ⟨_, heq⟩ => congrArg _ heq⟩
  | some fault => exact iff_of_false nofun (by rintro ⟨⟨⟩, _⟩)

end Judgements

end Part

/-! ## Misses -/

section Misses

variable {kind : PartKind} {raw : RawValue} {fault : ValueFault}

/-- A count that is not above zero is one of the two zeros. -/
theorem value_eq_zero_of_miss {count : Float} (hcount : Part.isCount count = true)
    (hmiss : ¬0.0 < count) : value count = 0 := by
  have ⟨hfinite, hnonneg⟩ := Part.isCount_iff.mp hcount
  rw [lt_iff_value_lt isWhole_zero.isFinite hfinite, isWhole_zero.value_eq, Int.cast_zero,
    not_lt] at hmiss
  exact le_antisymm hmiss hnonneg

theorem isWhole_cappedUnits_of_miss {count : Float} (hcount : Part.isCount count = true)
    (hmiss : ¬0.0 < count) (maxValue : Option UInt32) :
    IsWhole (Part.cappedUnits count maxValue) 0 := by
  have hfinite := (Part.isCount_iff.mp hcount).1
  have hzero := value_eq_zero_of_miss hcount hmiss
  refine ⟨Part.isFinite_cappedUnits hfinite maxValue, ?_⟩
  cases maxValue with
  | none => rw [Part.cappedUnits, hzero, Int.cast_zero]
  | some cap =>
    rw [Part.value_cappedUnits hfinite, hzero, (isWhole_toFloat cap).value_eq, Int.cast_zero]
    exact min_eq_left (by positivity)

/-- A miss is worth nothing at any finite rate. -/
theorem PartKind.isWhole_points_of_miss (hfault : kind.fault? raw = none)
    (hmiss : raw.isAchievement = false) (hrate : kind.rate.isFinite = true) :
    IsWhole (kind.points raw) 0 := by
  cases kind with
  | number pointsPerUnit maxValue =>
    cases raw with
    | number count =>
      have hcount := fault?_number_eq_none_iff.mp hfault
      have hunits := isWhole_cappedUnits_of_miss hcount (of_decide_eq_false hmiss) maxValue
      have hrounds := rounds_mul hunits.isFinite hrate
      rw [hunits.value_eq, Int.cast_zero, zero_mul, ← Int.cast_zero] at hrounds
      exact hrounds.isWhole (by norm_num)
    | flag value | other value => cases hfault
  | boolean truePoints =>
    cases raw with
    | flag value =>
      cases hmiss
      exact isWhole_zero
    | number value | other value => cases hfault

theorem PartKind.overflow?_eq_none (hfinite : (kind.points raw).isFinite = true) :
    kind.overflow? raw = none := by
  cases raw with
  | number count => exact overflow?_number_eq_none_iff.mpr hfinite
  | flag value | other value => rfl

/-- Only a number part finds points out of range. -/
theorem PartKind.exists_of_overflow?_eq_some (hoverflow : kind.overflow? raw = some fault) :
    ∃ pointsPerUnit maxValue count, kind = .number pointsPerUnit maxValue ∧
      raw = .number count ∧
      (Part.cappedUnits count maxValue * pointsPerUnit).isFinite = false := by
  cases raw with
  | number count =>
    rw [overflow?] at hoverflow
    split at hoverflow
    · cases hoverflow
    · next hinfinite =>
      cases kind with
      | number pointsPerUnit maxValue =>
        exact ⟨pointsPerUnit, maxValue, count, rfl, rfl, Bool.eq_false_iff.mpr hinfinite⟩
      | boolean truePoints => exact absurd isWhole_zero.isFinite hinfinite
  | flag value | other value => cases hoverflow

end Misses

/-- A value that is refused in a group is refused as an own value for the same reason, and
the other way round unless it is a count whose points are out of range.  A miss is accepted
as an own value too, and it earns zero where the part pays a finite rate. -/
theorem own_and_group_values_are_judged_alike (part : Part) (raw : RawValue) :
    (∀ cause, part.isAchieved raw = .error cause → part.score raw = .error cause) ∧
    (∀ cause, part.score raw = .error cause →
      part.isAchieved raw = .error cause ∨
        ∃ pointsPerUnit maxValue count, part.kind = .number pointsPerUnit maxValue ∧
          raw = .number count ∧
          (Part.cappedUnits count maxValue * pointsPerUnit).isFinite = false) ∧
    (part.isAchieved raw = .ok false → part.kind.rate.isFinite = true →
      ∃ points, part.score raw = .ok points ∧ (points == 0.0) = true) := by
  rw [Part.isAchieved_eq, Part.score_eq]
  refine ⟨?_, ?_, ?_⟩
  · intro cause herror
    obtain ⟨fault, hfault, hcause⟩ := Part.judge_eq_error_iff.mp herror
    apply Part.judge_eq_error_iff.mpr
    exact ⟨fault, Option.or_eq_some_iff.mpr (.inl hfault), hcause⟩
  · intro cause herror
    obtain ⟨fault, hfound, hcause⟩ := Part.judge_eq_error_iff.mp herror
    rcases Option.or_eq_some_iff.mp hfound with hfault | ⟨-, hoverflow⟩
    · exact .inl (Part.judge_eq_error_iff.mpr ⟨fault, hfault, hcause⟩)
    · exact .inr (PartKind.exists_of_overflow?_eq_some hoverflow)
  · intro hmiss hrate
    obtain ⟨hfault, hachieved⟩ := Part.judge_eq_ok_iff.mp hmiss
    have hzero := PartKind.isWhole_points_of_miss hfault hachieved hrate
    have hoverflow := PartKind.overflow?_eq_none hzero.isFinite
    refine ⟨part.kind.points raw, Part.judge_eq_ok_iff.mpr ⟨?_, rfl⟩, hzero.beq isWhole_zero⟩
    rw [hfault, hoverflow, Option.none_or]

/-- A negative count is refused at both places, 65.5 units only where they are paid, and no
units at all earn a zero, whatever its sign is. -/
theorem cappedPart_judged_alike :
    (Part.cappedPart Part.hugePayment 64).score (.number (-1.0)) =
        .error (.invalidPartValue "auto" (.notACount (-1.0))) ∧
      (Part.cappedUnits 65.5 (some 64) * Part.hugePayment).isFinite = false ∧
      ∃ points, (Part.cappedPart (-5.0) 10).score (.number (-0.0)) = .ok points ∧
        (points == 0.0) = true := by
  have hnegative : (Part.cappedPart Part.hugePayment 64).isAchieved (.number (-1.0)) =
      .error (.invalidPartValue "auto" (.notACount (-1.0))) := by rfl
  have hoverflow : (Part.cappedPart Part.hugePayment 64).score (.number 65.5) =
      .error (.invalidPartValue "auto" (.overflow 65.5)) := by rfl
  have hachieved : (Part.cappedPart Part.hugePayment 64).isAchieved (.number 65.5) =
      .ok true := by rfl
  have hmiss : (Part.cappedPart (-5.0) 10).isAchieved (.number (-0.0)) = .ok false := by rfl
  refine ⟨(own_and_group_values_are_judged_alike _ _).1 _ hnegative, ?_,
    (own_and_group_values_are_judged_alike _ _).2.2 hmiss (by decide +kernel)⟩
  rcases (own_and_group_values_are_judged_alike _ _).2.1 _ hoverflow with hrefused |
    ⟨pointsPerUnit, maxValue, count, hkind, hcount, hpoints⟩
  · cases hachieved.symm.trans hrefused
  · cases hkind
    cases hcount
    exact hpoints

end TournamentScoring
