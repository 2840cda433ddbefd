import TournamentScoring.Report.Structured

/-!
# Reports as Markdown

A heading and the profile, then either the score with its parts and penalties or
the status and the errors.
-/

namespace TournamentScoring

open Decimal

def BonusScope.heading : BonusScope → String
  | allTeams => "AllTeams"
  | perTeam => "PerTeam"

def PenaltyTarget.heading : PenaltyTarget → String
  | self => "Self_"
  | opponent => "Opponent"

def PartScore.markdownLine (score : PartScore) : String :=
  let points := s!"- {score.label} ({score.id}): {plainText score.points}"
  match score.bonusScope with
  | some scope =>
    s!"{points} + {plainText score.bonus} bonus ({scope.heading})\n"
  | none => s!"{points}\n"

def PenaltyLine.markdownLine (line : PenaltyLine) : String :=
  s!"- {line.id} x{line.count.toNat} -> {line.target.heading}: " ++
    s!"{plainText line.contribution}\n"

def penaltiesMarkdown (lines : List PenaltyLine) : String :=
  if lines.isEmpty then "- none\n"
  else String.join (lines.map PenaltyLine.markdownLine)

def PenaltyTotals.markdown (totals : PenaltyTotals) : String :=
  s!"\n- {selfPenaltiesName}: {plainText totals.selfTotal}\n" ++
    s!"- {opponentPenaltiesName}: {plainText totals.opponentTotal}\n" ++
    s!"- {netPenaltiesName}: {plainText totals.net}\n"

def MatchScore.markdown (score : MatchScore) : String :=
  s!"Score: {plainText score.score}\n\n" ++ "## Parts\n\n" ++
    String.join (score.breakdown.parts.map PartScore.markdownLine) ++
    "\n## Penalties\n\n" ++ penaltiesMarkdown score.breakdown.penalties ++
    score.breakdown.penaltyTotals.markdown ++
    s!"\nFormula value: {plainText score.breakdown.formulaValue}\n"

def EvaluationFailure.markdown (failure : EvaluationFailure) : String :=
  s!"Status: not scored ({failure.message})\n\n" ++ "## Errors\n\n" ++
    String.join (failure.errors.map fun error => s!"- {error.describe}\n")

namespace EvaluationReport

/-- The report as Markdown, `to_markdown`. -/
def toMarkdown (report : EvaluationReport) : String :=
  "# Match Score\n\n" ++
    s!"Profile: {report.profilePath} (v{report.profileVersion.toNat}, " ++
    s!"sha256 {report.profileDigest})\n\n" ++
    match report.outcome with
    | .ok score => score.markdown
    | .error failure => failure.markdown

/-- The text of a report, `render`. -/
def render (report : EvaluationReport) : ReportFormat → String
  | .json => report.toJsonText
  | .markdown => report.toMarkdown

end EvaluationReport

end TournamentScoring
