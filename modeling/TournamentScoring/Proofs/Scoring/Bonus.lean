import TournamentScoring.Scoring.Bonus

/-!
# What a group is refused for

A part refuses a value only as a value of that part, and the check of a group
reports the size of the group and then one refusal per refused value.
-/

namespace TournamentScoring

/-- The error of a refused value, if it is one. -/
def refusal? {α : Type} : Except ScoringError α → Option ScoringError
  | .ok _ => none
  | .error cause => some cause

namespace Part

/-- An error that says that a value of the part is invalid. -/
def Refuses (part : Part) (error : ScoringError) : Prop :=
  ∃ fault, error = .invalidPartValue part.id fault

theorem refuses_of_refuse {α : Type} {part : Part} {fault : ValueFault}
    {cause : ScoringError}
    (hrefuse : (part.refuse fault : Except ScoringError α) = .error cause) :
    part.Refuses cause :=
  ⟨fault, (Except.error.inj hrefuse).symm⟩

theorem refuses_of_score_eq_error {part : Part} {raw : RawValue}
    {cause : ScoringError} (hscore : part.score raw = .error cause) :
    part.Refuses cause := by
  unfold score at hscore
  split at hscore
  · split at hscore
    · exact refuses_of_refuse hscore
    · dsimp only at hscore
      split at hscore
      · cases hscore
      · exact refuses_of_refuse hscore
  · cases hscore
  · exact refuses_of_refuse hscore

theorem refuses_of_isAchieved_eq_error {part : Part} {raw : RawValue}
    {cause : ScoringError} (hachieved : part.isAchieved raw = .error cause) :
    part.Refuses cause := by
  unfold isAchieved at hachieved
  split at hachieved
  · split at hachieved
    · exact refuses_of_refuse hachieved
    · cases hachieved
  · cases hachieved
  · exact refuses_of_refuse hachieved

end Part

namespace CooperativeBonus

theorem errors_visit (part : Part) (check : GroupCheck) (raw : RawValue) :
    (check.visit part raw).errors =
      check.errors ++ (refusal? (part.isAchieved raw)).toList := by
  rw [GroupCheck.visit]
  cases part.isAchieved raw with
  | ok achieved => simp [refusal?]
  | error cause => simp [refusal?]

theorem errors_foldl_visit (part : Part) (group : List RawValue)
    (check : GroupCheck) :
    (group.foldl (GroupCheck.visit part) check).errors =
      check.errors ++
        group.filterMap fun raw => refusal? (part.isAchieved raw) := by
  induction group generalizing check with
  | nil => simp
  | cons raw rest ih =>
    rw [List.foldl_cons, ih, errors_visit, List.append_assoc]
    cases hraw : refusal? (part.isAchieved raw) with
    | none => simp [hraw]
    | some cause => simp [hraw]

/-- The size of the group is reported first, then every refused value in order,
also after a team has missed the part. -/
theorem errors_check (bonus : CooperativeBonus) (part : Part)
    (group : List RawValue) :
    (bonus.check part group).errors =
      bonus.sizeErrors part group ++
        group.filterMap fun raw => refusal? (part.isAchieved raw) :=
  errors_foldl_visit part group ⟨bonus.sizeErrors part group, true⟩

/-- A refused group is refused with all errors of its check, never without. -/
theorem resolve_eq_error {bonus : CooperativeBonus} {part : Part}
    {group : List RawValue} {causes : List ScoringError}
    (hresolve : bonus.resolve part group = .error causes) :
    causes = (bonus.check part group).errors ∧ causes ≠ [] := by
  unfold resolve at hresolve
  dsimp only at hresolve
  split at hresolve
  · rename_i herrors
    cases hresolve
    exact ⟨rfl, by simpa using herrors⟩
  · split at hresolve <;> cases hresolve

/-- The errors of a group are about its size or about one of its values. -/
theorem eq_sizeMismatch_or_refuses {bonus : CooperativeBonus} {part : Part}
    {group : List RawValue} {causes : List ScoringError}
    (hresolve : bonus.resolve part group = .error causes)
    {cause : ScoringError} (hcause : cause ∈ causes) :
    cause = .groupSizeMismatch part.id bonus.requiredTeamCount group.length ∨
      part.Refuses cause := by
  rw [(resolve_eq_error hresolve).1, errors_check, List.mem_append] at hcause
  rcases hcause with hsize | hvalue
  · left
    rw [sizeErrors] at hsize
    split at hsize
    · cases hsize
    · exact List.mem_singleton.mp hsize
  · right
    obtain ⟨raw, _, hraw⟩ := List.mem_filterMap.mp hvalue
    cases hachieved : part.isAchieved raw with
    | ok achieved => simp [hachieved, refusal?] at hraw
    | error found =>
      have hfound : found = cause := by
        simpa [hachieved, refusal?] using hraw
      exact hfound ▸ Part.refuses_of_isAchieved_eq_error hachieved

theorem allAchieved_visit (part : Part) (check : GroupCheck) (raw : RawValue)
    (hvalid : refusal? (part.isAchieved raw) = none) :
    (check.visit part raw).allAchieved = true ↔
      check.allAchieved = true ∧ part.isAchieved raw = .ok true := by
  rw [GroupCheck.visit]
  cases hraw : part.isAchieved raw with
  | ok achieved => simp
  | error cause => simp [hraw, refusal?] at hvalid

theorem allAchieved_foldl_visit (part : Part) (group : List RawValue)
    (check : GroupCheck)
    (hvalid : ∀ raw ∈ group, refusal? (part.isAchieved raw) = none) :
    (group.foldl (GroupCheck.visit part) check).allAchieved = true ↔
      check.allAchieved = true ∧
        ∀ raw ∈ group, part.isAchieved raw = .ok true := by
  induction group generalizing check with
  | nil => simp
  | cons raw rest ih =>
    obtain ⟨hraw, hrest⟩ := List.forall_mem_cons.mp hvalid
    rw [List.foldl_cons, ih _ hrest, allAchieved_visit part check raw hraw,
      List.forall_mem_cons, and_assoc]

/-- A group that is not refused has the required size and valid values only, and
it earns the bonus if every team achieved the part and nothing otherwise. -/
theorem resolve_eq_ok {bonus : CooperativeBonus} {part : Part}
    {group : List RawValue} {points : Float}
    (hresolve : bonus.resolve part group = .ok points) :
    group.length = bonus.requiredTeamCount.toNat ∧
      (∀ raw ∈ group, refusal? (part.isAchieved raw) = none) ∧
      ((∀ raw ∈ group, part.isAchieved raw = .ok true) ∧
          points = bonus.bonusPoints.toFloat ∨
        (∃ raw ∈ group, part.isAchieved raw = .ok false) ∧ points = 0.0) := by
  unfold resolve at hresolve
  dsimp only at hresolve
  split at hresolve
  · cases hresolve
  · rename_i herrors
    have hnone : (bonus.check part group).errors = [] := by
      simpa using herrors
    rw [errors_check] at hnone
    obtain ⟨hsize, hvalues⟩ := List.append_eq_nil_iff.mp hnone
    have hvalid : ∀ raw ∈ group, refusal? (part.isAchieved raw) = none :=
      List.filterMap_eq_nil_iff.mp hvalues
    have hlength : group.length = bonus.requiredTeamCount.toNat := by
      rw [sizeErrors] at hsize
      split at hsize
      · assumption
      · cases hsize
    refine ⟨hlength, hvalid, ?_⟩
    have hall := allAchieved_foldl_visit part group
      ⟨bonus.sizeErrors part group, true⟩ hvalid
    rw [and_iff_right rfl] at hall
    split at hresolve
    · rename_i hachieved
      exact Or.inl ⟨hall.mp hachieved, (Except.ok.inj hresolve).symm⟩
    · rename_i hmissed
      refine Or.inr ⟨?_, (Except.ok.inj hresolve).symm⟩
      obtain ⟨raw, hraw, hnot⟩ : ∃ raw ∈ group, part.isAchieved raw ≠ .ok true := by
        simpa only [Classical.not_forall, exists_prop] using
          mt hall.mpr hmissed
      have hvalue := hvalid raw hraw
      refine ⟨raw, hraw, ?_⟩
      cases hcase : part.isAchieved raw with
      | ok achieved =>
        rw [hcase] at hnot
        simpa using hnot
      | error cause => simp [hcase, refusal?] at hvalue

end CooperativeBonus

end TournamentScoring
