import TournamentScoring.Configuration.Assignment
import TournamentScoring.Decimal.Style
import TournamentScoring.Logging.Basic
import TournamentScoring.Scoring.Event

/-!
# Events and their log lines

What a run reports while it works.  Texts stand bare in a field, apart from the
level of an assignment, and floats show that they are floats.
-/

namespace TournamentScoring

inductive Event
  /-- A setting that a later layer replaced. -/
  | overriddenSetting (key : String)
  | resolvedProfile (stage : String) (assignment : Assignment)
  | scoring (event : ScoringEvent)
  | scored (score : Float)
  | notScored (errors : Nat)
deriving DecidableEq

/-- A float as a field shows it. -/
def floatField (name : String) (value : Float) : String × String :=
  (name, Decimal.Style.log.write value)

def ScoringEvent.line : ScoringEvent → LogLine
  | ignoredValue part =>
    ⟨.warn, "ignoring score input for undeclared part", [("part", part)]⟩
  | scoredPart part points bonus =>
    ⟨.debug, "scored part",
      [("part", part), floatField "points" points, floatField "bonus" bonus]⟩
  | rejectedInput errors =>
    ⟨.debug, "score input rejected", [("errors", toString errors)]⟩
  | totalledPenalties totals =>
    ⟨.debug, "aggregated penalties",
      [floatField "self_total" totals.selfTotal,
        floatField "opponent_total" totals.opponentTotal,
        floatField "net" totals.net]⟩
  | evaluatedFormula score formulaValue =>
    ⟨.debug, "evaluated total formula",
      [floatField "score" score, floatField "formula_value" formulaValue]⟩

def Event.line : Event → LogLine
  | overriddenSetting key =>
    ⟨.debug, "config value overridden by a later layer", [("key", key)]⟩
  | resolvedProfile stage assignment =>
    ⟨.info, "resolved score profile",
      [("stage", stage), ("level", s!"\"{assignment.level.name}\""),
        ("profile", assignment.path)]⟩
  | scoring event => event.line
  | scored score =>
    ⟨.info, "match side scored", [floatField "score" score]⟩
  | notScored errors =>
    ⟨.info, "match side not scored", [("errors", toString errors)]⟩

end TournamentScoring
