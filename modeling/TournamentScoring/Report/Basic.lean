import TournamentScoring.Document.ProfileEncoding
import TournamentScoring.Scoring.Match

/-!
# Evaluation reports

A report holds the outcome of one evaluation and says which profile produced it,
so that a score can be traced to the exact rules behind it.
-/

namespace TournamentScoring

structure EvaluationReport where
  profilePath : String
  profileVersion : UInt32
  profileDigest : String
  outcome : Except EvaluationFailure MatchScore

/-- The report of an outcome under a profile that was found at a path. -/
def EvaluationReport.ofOutcome (path : String) (profile : Profile)
    (outcome : Except EvaluationFailure MatchScore) : EvaluationReport where
  profilePath := path
  profileVersion := profile.version
  profileDigest := profile.digest
  outcome := outcome

inductive ReportFormat
  | json
  | markdown
deriving DecidableEq

end TournamentScoring
