import TournamentScoring.Proofs.Scoring.Bonus

/-!
# All or nothing, for every team alike

A bonus is granted to a group or withheld from it as a whole.  Whether it is does not
depend on the order of the teams, and one team that misses the part is enough to lose
it.  A group that is refused has an error for its size and one for each refused value,
whatever the other teams did.
-/

namespace TournamentScoring

/-- A value that the part does not take for an achievement or for a miss. -/
def Part.Rejects (part : Part) (raw : RawValue) : Prop :=
  ∃ cause, part.isAchieved raw = .error cause

/-- The refusals of the values of a group, in the order of the teams. -/
def Part.refusals (part : Part) (group : List RawValue) : List ScoringError :=
  group.filterMap fun raw => refusal? (part.isAchieved raw)

namespace CooperativeBonus

variable {bonus : CooperativeBonus} {part : Part} {group other : List RawValue}

theorem refusal?_eq_none_iff {raw : RawValue} :
    refusal? (part.isAchieved raw) = none ↔ ¬part.Rejects raw := by
  unfold Part.Rejects
  cases part.isAchieved raw with
  | ok achieved => simp [refusal?]
  | error cause => simp [refusal?]

theorem refusals_eq_nil_iff :
    part.refusals group = [] ↔ ∀ raw ∈ group, ¬part.Rejects raw := by
  rw [Part.refusals, List.filterMap_eq_nil_iff]
  exact forall₂_congr fun raw _ => refusal?_eq_none_iff

theorem sizeErrors_eq_nil_iff :
    bonus.sizeErrors part group = [] ↔
      group.length = bonus.requiredTeamCount.toNat := by
  rw [sizeErrors]
  split <;> simp_all

/-! ## One group -/

/-- A refused group has these errors and at least one of them. -/
theorem errors_of_resolve {causes : List ScoringError}
    (hresolve : bonus.resolve part group = .error causes) :
    causes = bonus.sizeErrors part group ++ part.refusals group ∧ causes ≠ [] := by
  obtain ⟨hcauses, hne⟩ := resolve_eq_error hresolve
  exact ⟨hcauses.trans (errors_check bonus part group), hne⟩

/-- A group is refused for its size or for a value, and for nothing else. -/
theorem exists_resolve_eq_error_iff :
    (∃ causes, bonus.resolve part group = .error causes) ↔
      group.length ≠ bonus.requiredTeamCount.toNat ∨
        ∃ raw ∈ group, part.Rejects raw := by
  constructor
  · rintro ⟨causes, hresolve⟩
    obtain ⟨rfl, hne⟩ := errors_of_resolve hresolve
    apply Classical.byContradiction
    intro hnone
    obtain ⟨hsize, hvalues⟩ := not_or.mp hnone
    apply hne
    rw [sizeErrors_eq_nil_iff.mpr (Classical.not_not.mp hsize), List.nil_append]
    apply refusals_eq_nil_iff.mpr
    intro raw hraw hrejects
    exact hvalues ⟨raw, hraw, hrejects⟩
  · intro hfault
    cases hresolve : bonus.resolve part group with
    | error causes => exact ⟨causes, rfl⟩
    | ok points =>
      obtain ⟨hlength, hvalid, -⟩ := resolve_eq_ok hresolve
      rcases hfault with hsize | ⟨raw, hraw, hrejects⟩
      · exact absurd hlength hsize
      · exact absurd hrejects (refusal?_eq_none_iff.mp (hvalid raw hraw))

/-- A complete group of valid values is granted something. -/
theorem exists_resolve_eq_ok (hlength : group.length = bonus.requiredTeamCount.toNat)
    (hvalid : ∀ raw ∈ group, ¬part.Rejects raw) :
    ∃ points, bonus.resolve part group = .ok points := by
  cases hresolve : bonus.resolve part group with
  | ok points => exact ⟨points, rfl⟩
  | error causes =>
    rcases exists_resolve_eq_error_iff.mp ⟨causes, hresolve⟩ with hsize | ⟨raw, hraw, hrejects⟩
    · exact absurd hlength hsize
    · exact absurd hrejects (hvalid raw hraw)

theorem resolve_of_all_achieved (hlength : group.length = bonus.requiredTeamCount.toNat)
    (hall : ∀ raw ∈ group, part.isAchieved raw = .ok true) :
    bonus.resolve part group = .ok bonus.bonusPoints.toFloat := by
  have hvalid : ∀ raw ∈ group, ¬part.Rejects raw := by
    rintro raw hraw ⟨cause, hcause⟩
    cases (hall raw hraw).symm.trans hcause
  obtain ⟨points, hresolve⟩ := exists_resolve_eq_ok hlength hvalid
  obtain ⟨-, -, hgranted | hwithheld⟩ := resolve_eq_ok hresolve
  · rw [hresolve, hgranted.2]
  · obtain ⟨⟨raw, hraw, hmissed⟩, -⟩ := hwithheld
    cases (hall raw hraw).symm.trans hmissed

theorem resolve_of_missed (hlength : group.length = bonus.requiredTeamCount.toNat)
    (hvalid : ∀ raw ∈ group, ¬part.Rejects raw)
    (hmissed : ∃ raw ∈ group, part.isAchieved raw = .ok false) :
    bonus.resolve part group = .ok 0.0 := by
  obtain ⟨points, hresolve⟩ := exists_resolve_eq_ok hlength hvalid
  obtain ⟨-, -, hgranted | hwithheld⟩ := resolve_eq_ok hresolve
  · obtain ⟨raw, hraw, hfalse⟩ := hmissed
    cases (hgranted.1 raw hraw).symm.trans hfalse
  · rw [hresolve, hwithheld.2]

/-! ## Two groups -/

/-- The order of the teams does not matter for what is granted. -/
theorem resolve_eq_ok_of_perm (hperm : group.Perm other) {points : Float}
    (hresolve : bonus.resolve part group = .ok points) :
    bonus.resolve part other = .ok points := by
  obtain ⟨hlength, hvalid, hpoints⟩ := resolve_eq_ok hresolve
  have hother : other.length = bonus.requiredTeamCount.toNat :=
    hperm.length_eq.symm.trans hlength
  rcases hpoints with ⟨hall, rfl⟩ | ⟨⟨raw, hraw, hmissed⟩, rfl⟩
  · apply resolve_of_all_achieved hother
    intro raw hraw
    exact hall raw (hperm.mem_iff.mpr hraw)
  · refine resolve_of_missed hother ?_ ⟨raw, hperm.mem_iff.mp hraw, hmissed⟩
    intro raw hraw
    exact refusal?_eq_none_iff.mp (hvalid raw (hperm.mem_iff.mpr hraw))

theorem sizeErrors_eq_of_perm (hperm : group.Perm other) :
    bonus.sizeErrors part other = bonus.sizeErrors part group := by
  rw [sizeErrors, sizeErrors, hperm.length_eq]

/-- It does not matter for what is refused either: the size is wrong as before and the
refusals of the values change places. -/
theorem exists_resolve_eq_error_of_perm (hperm : group.Perm other)
    {causes : List ScoringError} (hresolve : bonus.resolve part group = .error causes) :
    ∃ refusals, bonus.resolve part other =
        .error (bonus.sizeErrors part group ++ refusals) ∧
      (part.refusals group).Perm refusals := by
  cases hother : bonus.resolve part other with
  | ok points =>
    cases hresolve.symm.trans (resolve_eq_ok_of_perm hperm.symm hother)
  | error others =>
    refine ⟨part.refusals other, ?_, hperm.filterMap _⟩
    rw [(errors_of_resolve hother).1, sizeErrors_eq_of_perm hperm]

/-- One team that misses the part loses the bonus for all of them. -/
theorem resolve_of_replaced {before after : List RawValue} {raw missed : RawValue}
    {points : Float} (hresolve : bonus.resolve part (before ++ raw :: after) = .ok points)
    (hmissed : part.isAchieved missed = .ok false) :
    bonus.resolve part (before ++ missed :: after) = .ok 0.0 := by
  obtain ⟨hlength, hvalid, -⟩ := resolve_eq_ok hresolve
  refine resolve_of_missed ?_ ?_ ⟨missed, List.mem_append_cons_self, hmissed⟩
  · rw [← hlength, List.length_append, List.length_append]
    rfl
  · intro value hvalue
    rcases List.mem_append.mp hvalue with hbefore | hrest
    · exact refusal?_eq_none_iff.mp (hvalid value (List.mem_append_left _ hbefore))
    · rcases List.mem_cons.mp hrest with rfl | hafter
      · rintro ⟨cause, hcause⟩
        cases hmissed.symm.trans hcause
      · exact refusal?_eq_none_iff.mp
          (hvalid value (List.mem_append_right _ (List.mem_cons_of_mem _ hafter)))

/-- A group is refused exactly when its size is wrong or one of its values is refused,
with all of these errors.  Otherwise it has the whole bonus if every team achieved the
part and nothing if one did not, whatever the scope.  The teams may change places, and
one miss in the place of any team's value leaves nothing of the bonus. -/
theorem resolve_is_all_or_nothing (bonus : CooperativeBonus) (part : Part) :
    (∀ group : List RawValue,
      ((∃ causes, bonus.resolve part group = .error causes) ↔
        group.length ≠ bonus.requiredTeamCount.toNat ∨ ∃ raw ∈ group, part.Rejects raw) ∧
      (∀ causes, bonus.resolve part group = .error causes →
        causes =
          (if group.length = bonus.requiredTeamCount.toNat then []
            else [.groupSizeMismatch part.id bonus.requiredTeamCount group.length]) ++
          group.filterMap fun raw => refusal? (part.isAchieved raw)) ∧
      (group.length = bonus.requiredTeamCount.toNat →
        ((∀ raw ∈ group, part.isAchieved raw = .ok true) →
          bonus.resolve part group = .ok bonus.bonusPoints.toFloat) ∧
        ((∀ raw ∈ group, ¬part.Rejects raw) →
          (∃ raw ∈ group, part.isAchieved raw = .ok false) →
          bonus.resolve part group = .ok 0.0)) ∧
      ∀ scope, { bonus with appliesTo := scope }.resolve part group =
        bonus.resolve part group) ∧
    (∀ group other : List RawValue, group.Perm other →
      (∀ points, bonus.resolve part group = .ok points →
        bonus.resolve part other = .ok points) ∧
      ∀ causes, bonus.resolve part group = .error causes →
        ∃ refusals, bonus.resolve part other =
            .error (bonus.sizeErrors part group ++ refusals) ∧
          (part.refusals group).Perm refusals) ∧
    ∀ (before after : List RawValue) (raw missed : RawValue) (points : Float),
      bonus.resolve part (before ++ raw :: after) = .ok points →
        part.isAchieved missed = .ok false →
          bonus.resolve part (before ++ missed :: after) = .ok 0.0 := by
  refine ⟨?_, ?_, ?_⟩
  · intro group
    refine ⟨exists_resolve_eq_error_iff, ?_, ?_, fun scope => rfl⟩
    · intro causes hresolve
      exact (errors_of_resolve hresolve).1
    · intro hlength
      exact ⟨resolve_of_all_achieved hlength, resolve_of_missed hlength⟩
  · intro group other hperm
    refine ⟨?_, ?_⟩
    · intro points hresolve
      exact resolve_eq_ok_of_perm hperm hresolve
    · intro causes hresolve
      exact exists_resolve_eq_error_of_perm hperm hresolve
  · intro before after raw missed points hresolve hmissed
    exact resolve_of_replaced hresolve hmissed

/-- A count with a bonus for pairs. -/
def hangPart : Part where
  id := "hang"
  label := "Hang"
  description := none
  cooperativeBonus := some ⟨2, 10, .allTeams, none⟩
  kind := .number 5.0 none

/-- The same pair is granted the bonus in both orders and loses it by one miss.  Three
teams are too many, and two of their values are refused beside a miss. -/
theorem hangPart_bonus_granted_lost_and_refused :
    ∃ bonus, hangPart.cooperativeBonus = some bonus ∧
      bonus.resolve hangPart [.number 3.0, .number 1.0] = .ok 10.0 ∧
      bonus.resolve hangPart [.number 1.0, .number 3.0] = .ok 10.0 ∧
      bonus.resolve hangPart [.number 0.0, .number 3.0] = .ok 0.0 ∧
      bonus.resolve hangPart [.flag true, .number 0.0, .number (-1.0)] =
        .error [.groupSizeMismatch "hang" 2 3,
          .invalidPartValue "hang" (.wrongKind hangPart.kind (.flag true)),
          .invalidPartValue "hang" (.notACount (-1.0))] := by
  obtain ⟨hgroup, hperm, hreplaced⟩ :=
    resolve_is_all_or_nothing ⟨2, 10, .allTeams, none⟩ hangPart
  have hthree : hangPart.isAchieved (.number 3.0) = .ok true := rfl
  have hone : hangPart.isAchieved (.number 1.0) = .ok true := rfl
  have hzero : hangPart.isAchieved (.number 0.0) = .ok false := rfl
  obtain ⟨-, -, hcomplete, -⟩ := hgroup [.number 3.0, .number 1.0]
  have hgranted := (hcomplete rfl).1 (by simp [hthree, hone])
  have hswapped := (hperm _ [.number 1.0, .number 3.0] (.swap _ _ _)).1 _ hgranted
  obtain ⟨hfails, herrors, -⟩ := hgroup [.flag true, .number 0.0, .number (-1.0)]
  obtain ⟨causes, hrefused⟩ := hfails.mpr (.inl (by decide))
  have hpoints : (10 : UInt32).toFloat = 10.0 := by decide +kernel
  rw [hpoints] at hgranted hswapped
  refine ⟨_, rfl, hgranted, hswapped, hreplaced [] _ _ _ _ hswapped hzero, ?_⟩
  rw [hrefused, herrors causes hrefused]
  rfl

end CooperativeBonus

end TournamentScoring
