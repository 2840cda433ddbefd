import TournamentScoring.Scoring.Part

/-!
# Cooperative bonuses

A bonus is earned when the group has the required size and every team in it
achieved the part.  The size and every single value are checked, so all errors
of a group come out together.
-/

namespace TournamentScoring

/-- What the check of a group has found so far. -/
structure GroupCheck where
  errors : List ScoringError
  allAchieved : Bool

/-- Checks one more value, also after a team has missed the part. -/
def GroupCheck.visit (part : Part) (check : GroupCheck) (raw : RawValue) :
    GroupCheck :=
  match part.isAchieved raw with
  | .ok achieved => ⟨check.errors, check.allAchieved && achieved⟩
  | .error cause => ⟨check.errors ++ [cause], check.allAchieved⟩

namespace CooperativeBonus

/-- The error of a group of the wrong size. -/
def sizeErrors (bonus : CooperativeBonus) (part : Part)
    (group : List RawValue) : List ScoringError :=
  if group.length = bonus.requiredTeamCount.toNat then []
  else [.groupSizeMismatch part.id bonus.requiredTeamCount group.length]

/-- The check of a whole group: its size first, then its values in order. -/
def check (bonus : CooperativeBonus) (part : Part) (group : List RawValue) :
    GroupCheck :=
  group.foldl (GroupCheck.visit part) ⟨bonus.sizeErrors part group, true⟩

/-- The bonus points of the scored team, all of them or none: `resolve_bonus` of
the engine. -/
def resolve (bonus : CooperativeBonus) (part : Part) (group : List RawValue) :
    Except (List ScoringError) Float :=
  let outcome := bonus.check part group
  if !outcome.errors.isEmpty then .error outcome.errors
  else if outcome.allAchieved then .ok bonus.bonusPoints.toFloat
  else .ok 0.0

end CooperativeBonus

end TournamentScoring
