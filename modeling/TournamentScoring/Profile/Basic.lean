/-!
# Score profiles

A profile says how a match side is scored: the parts of the match that earn
points, the penalties that can be called, and the formula that makes one score
of them.  The engine only reads it.
-/

namespace TournamentScoring

/-- What a formula may call the penalties of the scored side. -/
def selfPenaltiesName : String := "TOTAL_PENALTIES_SELF"

/-- What a formula may call the penalties of the other side. -/
def opponentPenaltiesName : String := "TOTAL_PENALTIES_OPPONENT"

/-- What a formula may call the difference of the two. -/
def netPenaltiesName : String := "NET_PENALTIES"

/-- The names that no part and no penalty may take, `PENALTY_SYMBOLS`. -/
def penaltyNames : List String :=
  [selfPenaltiesName, opponentPenaltiesName, netPenaltiesName]

/-- Whom a bonus belongs to.  Each side is scored on its own, so both scopes
credit the scored side; totals over an alliance count an award to all teams
once. -/
inductive BonusScope
  | allTeams
  | perTeam
deriving DecidableEq

/-- Extra points for a part that every team of a group has achieved. -/
structure CooperativeBonus where
  requiredTeamCount : UInt8
  bonusPoints : UInt32
  appliesTo : BonusScope
  description : Option String
deriving DecidableEq

/-- How the achieved value of a part becomes points: `PartKind` with the fields
of `NumberPart` and `BooleanPart`. -/
inductive PartKind
  /-- A count: so many points per unit, for at most so many units. -/
  | number (pointsPerUnit : Float) (maxValue : Option UInt32)
  /-- A flag: so many points when it is set. -/
  | boolean (truePoints : Float)
deriving DecidableEq

structure Part where
  id : String
  label : String
  description : Option String
  cooperativeBonus : Option CooperativeBonus
  kind : PartKind
deriving DecidableEq

/-- Whose total a penalty enters. -/
inductive PenaltyTarget
  | self
  | opponent
deriving DecidableEq

inductive PenaltyDirection
  | add
  | subtract
deriving DecidableEq

structure PenaltyRule where
  id : String
  label : String
  description : Option String
  points : UInt32
  target : PenaltyTarget
  direction : PenaltyDirection
deriving DecidableEq

/-- The whole definition of a score, `ScoreProfileDefinition`. -/
structure Profile where
  version : UInt32
  parts : List Part
  penalties : List PenaltyRule
  totalFormula : String
  notes : Option String
deriving DecidableEq

namespace Profile

/-- The names that the formula may mention, `formula_symbols`: the parts in
their order, then the penalty totals. -/
def formulaSymbols (profile : Profile) : List String :=
  profile.parts.map Part.id ++ penaltyNames

def declaresPart (profile : Profile) (id : String) : Bool :=
  profile.parts.any fun part => part.id == id

end Profile

end TournamentScoring
