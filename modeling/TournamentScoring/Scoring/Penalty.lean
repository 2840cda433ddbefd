import TournamentScoring.Scoring.Error

/-!
# Penalty totals

Every rule contributes its points once per occurrence, with the sign of its
direction, to the total of its target.  Every occurrence must belong to a rule.
-/

namespace TournamentScoring

def PenaltyDirection.sign : PenaltyDirection → Float
  | add => 1.0
  | subtract => -1.0

/-- One rule with its occurrences and what they add up to. -/
structure PenaltyLine where
  id : String
  count : UInt32
  target : PenaltyTarget
  contribution : Float
deriving DecidableEq

/-- The sums of the contributions to each side, and the opponent's less the
own. -/
structure PenaltyTotals where
  selfTotal : Float
  opponentTotal : Float
  net : Float
deriving DecidableEq

/-- The line of a rule; a rule that does not occur has the count zero. -/
def PenaltyRule.line (rule : PenaltyRule) (occurrences : KeyedTable UInt32) :
    PenaltyLine :=
  let count := (occurrences.get? rule.id).getD 0
  { id := rule.id
    count := count
    target := rule.target
    contribution := rule.points.toFloat * count.toFloat * rule.direction.sign }

/-- The contributions to one target, summed in the order of the rules. -/
def totalOf (target : PenaltyTarget) (lines : List PenaltyLine) : Float :=
  lines.foldl
    (fun total line =>
      if line.target = target then total + line.contribution else total) 0.0

def PenaltyTotals.ofLines (lines : List PenaltyLine) : PenaltyTotals where
  selfTotal := totalOf .self lines
  opponentTotal := totalOf .opponent lines
  net := totalOf .opponent lines - totalOf .self lines

/-- One error per occurrence that belongs to no rule, in key order. -/
def unknownPenalties (rules : List PenaltyRule)
    (occurrences : KeyedTable UInt32) : List ScoringError :=
  (occurrences.keys.filter fun id => !rules.any fun rule => rule.id == id).map
    ScoringError.unknownPenaltyId

/-- The lines of all rules and their totals, `aggregate_penalties` of the
engine. -/
def aggregatePenalties (rules : List PenaltyRule)
    (occurrences : KeyedTable UInt32) :
    Except (List ScoringError) (PenaltyTotals × List PenaltyLine) :=
  match unknownPenalties rules occurrences with
  | [] =>
    let lines := rules.map fun rule => rule.line occurrences
    .ok (PenaltyTotals.ofLines lines, lines)
  | errors => .error errors

end TournamentScoring
