import TournamentScoring.Scoring.Match

/-!
# What happens while a side is scored

Scoring is a function, and its events are another one of the same arguments: they
say what was ignored, what each part earned and how the scoring ended.  No event
has an influence on the score.
-/

namespace TournamentScoring

/-- The events that `calculate_match_score_with` writes to its log. -/
inductive ScoringEvent
  /-- An input value that belongs to no part of the profile. -/
  | ignoredValue (part : String)
  | scoredPart (part : String) (points bonus : Float)
  | rejectedInput (errors : Nat)
  | totalledPenalties (totals : PenaltyTotals)
  | evaluatedFormula (score formulaValue : Float)
deriving DecidableEq

namespace Profile

/-- The keys of input values that belong to no part, in key order. -/
def ignoredValues (profile : Profile) (input : ScoreInput) : List String :=
  input.values.keys.filter fun id => !profile.declaresPart id

/-- The events after the parts have been scored. -/
def closingEvents (profile : Profile) (input : ScoreInput)
    (settings : EngineSettings) : List ScoringEvent :=
  let errors := (profile.partPass input).errors
  match aggregatePenalties profile.penalties input.penalties with
  | .error unknown => [.rejectedInput (errors ++ unknown).length]
  | .ok (totals, _) =>
    if !errors.isEmpty then [.rejectedInput errors.length]
    else
      .totalledPenalties totals ::
        match profile.scoreMatch input settings with
        | .ok score =>
          [.evaluatedFormula score.score score.breakdown.formulaValue]
        | .error _ => []

/-- The events of an evaluation in their order.  A part whose own input is in
order is scored even where another part is refused. -/
def scoringEvents (profile : Profile) (input : ScoreInput)
    (settings : EngineSettings) : List ScoringEvent :=
  (profile.ignoredValues input).map ScoringEvent.ignoredValue ++
    (profile.partPass input).scores.map (fun score =>
      .scoredPart score.id score.points score.bonus) ++
    profile.closingEvents input settings

end Profile

end TournamentScoring
