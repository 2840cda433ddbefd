import TournamentScoring.Report.Basic

/-!
# Reports as JSON

A score and its breakdown, or the errors and their summary, with the profile
beside them.  The keys of every object are in increasing order.
-/

namespace TournamentScoring

def PartScore.toJson (score : PartScore) : Json :=
  .object
    ([("bonus", .float score.bonus)] ++
      Json.optionalMember "bonusScope" (fun scope : BonusScope =>
        .text scope.name) score.bonusScope ++
      [("id", .text score.id), ("label", .text score.label),
        ("points", .float score.points)])

def PenaltyLine.toJson (line : PenaltyLine) : Json :=
  .object
    [("contribution", .float line.contribution), ("count", .word line.count),
      ("id", .text line.id), ("target", .text line.target.name)]

def PenaltyTotals.toJson (totals : PenaltyTotals) : Json :=
  .object
    [(netPenaltiesName, .float totals.net),
      (opponentPenaltiesName, .float totals.opponentTotal),
      (selfPenaltiesName, .float totals.selfTotal)]

def ScoreBreakdown.toJson (breakdown : ScoreBreakdown) : Json :=
  .object
    [("formulaValue", .float breakdown.formulaValue),
      ("parts", .array (breakdown.parts.map PartScore.toJson)),
      ("penalties", .array (breakdown.penalties.map PenaltyLine.toJson)),
      ("penaltyTotals", breakdown.penaltyTotals.toJson)]

namespace EvaluationReport

def profileJson (report : EvaluationReport) : Json :=
  .object
    [("path", .text report.profilePath), ("sha256", .text report.profileDigest),
      ("version", .word report.profileVersion)]

/-- The payload of the outcome with the profile put into it, `to_json`. -/
def toJson (report : EvaluationReport) : Json :=
  match report.outcome with
  | .ok score =>
    .object
      [("breakdown", score.breakdown.toJson), ("profile", report.profileJson),
        ("score", .float score.score)]
  | .error failure =>
    .object
      [("error", .text failure.message),
        ("errors", .array (failure.errors.map fun error =>
          .text error.describe)),
        ("profile", report.profileJson)]

/-- The report over several lines. -/
def toJsonText (report : EvaluationReport) : String :=
  report.toJson.pretty

end EvaluationReport

end TournamentScoring
