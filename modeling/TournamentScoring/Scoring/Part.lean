import TournamentScoring.Scoring.Error

/-!
# Scoring one part

A number part turns a count into points, up to its cap; a boolean part turns a
flag into points.  A value that has the wrong kind, or is no count, is refused
with the part's id, whether it is scored or only checked for achievement.
-/

namespace TournamentScoring.Part

def refuse {α : Type} (part : Part) (fault : ValueFault) :
    Except ScoringError α :=
  .error (.invalidPartValue part.id fault)

/-- A count is finite and not negative, as `check_count` asks; the negative zero
is a count. -/
def isCount (value : Float) : Bool :=
  value.isFinite && !(value < 0.0)

/-- The units that earn points: no more than the cap, if there is one.  The cap
stands for a count that equals it, so the negative zero
under a cap of zero is plain zero. -/
def cappedUnits (value : Float) : Option UInt32 → Float
  | none => value
  | some cap => if value < cap.toFloat then value else cap.toFloat

/-- The points that a raw value earns, `score_part` of the engine. -/
def score (part : Part) (raw : RawValue) : Except ScoringError Float :=
  match part.kind, raw with
  | .number pointsPerUnit maxValue, .number value =>
    if !isCount value then part.refuse (.notACount value)
    else
      let points := cappedUnits value maxValue * pointsPerUnit
      if points.isFinite then .ok points else part.refuse (.overflow value)
  | .boolean truePoints, .flag value => .ok (if value then truePoints else 0.0)
  | kind, raw => part.refuse (.wrongKind kind raw)

/-- Whether a raw value counts as an achievement: a count above zero, or a flag
that is set.  It is `is_achieved` of the engine. -/
def isAchieved (part : Part) (raw : RawValue) : Except ScoringError Bool :=
  match part.kind, raw with
  | .number _ _, .number value =>
    if !isCount value then part.refuse (.notACount value)
    else .ok (decide (0.0 < value))
  | .boolean _, .flag value => .ok value
  | kind, raw => part.refuse (.wrongKind kind raw)

end TournamentScoring.Part
