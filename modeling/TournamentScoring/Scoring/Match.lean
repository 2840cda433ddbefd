import TournamentScoring.Decimal.Rounding
import TournamentScoring.Formula.Parser
import TournamentScoring.Scoring.Bonus
import TournamentScoring.Scoring.Penalty

/-!
# Scoring a match side

A side is scored all or nothing.  First the whole input is checked against the
profile, and every error is collected; only an input without errors reaches the
formula.  The score comes with a breakdown from which it can be computed again.
-/

namespace TournamentScoring

/-- The settings that hold for every evaluation. -/
structure EngineSettings where
  maxFormulaLength : Nat
  scoreDecimals : Option UInt32
deriving DecidableEq

def EngineSettings.default : EngineSettings where
  maxFormulaLength := 2000
  scoreDecimals := none

/-- What a part earned.  The scope is present when a bonus was granted. -/
structure PartScore where
  id : String
  label : String
  points : Float
  bonus : Float
  bonusScope : Option BonusScope
deriving DecidableEq

def PartScore.total (score : PartScore) : Float :=
  score.points + score.bonus

structure ScoreBreakdown where
  parts : List PartScore
  penalties : List PenaltyLine
  penaltyTotals : PenaltyTotals
  /-- The value of the formula before it is rounded. -/
  formulaValue : Float
deriving DecidableEq

structure MatchScore where
  score : Float
  breakdown : ScoreBreakdown
deriving DecidableEq

/-- A side that could not be scored; there is never a partial score. -/
structure EvaluationFailure where
  errors : List ScoringError

/-- The summary of a failure: its only error, or the number of its errors. -/
def EvaluationFailure.message (failure : EvaluationFailure) : String :=
  match failure.errors with
  | [error] => error.describe
  | errors => s!"score input failed validation ({errors.length} errors)"

/-! ## The input of a part -/

namespace Part

/-- The raw values of the group of a part; a missing group is empty. -/
def group (part : Part) (input : ScoreInput) : List RawValue :=
  (input.cooperative.get? part.id).getD []

/-- The bonus of a part; a part without one grants nothing. -/
def bonusPoints (part : Part) (input : ScoreInput) :
    Except (List ScoringError) Float :=
  match part.cooperativeBonus with
  | none => .ok 0.0
  | some bonus => bonus.resolve part (part.group input)

/-- The points of the own value, where there is one. -/
def ownPoints (part : Part) (input : ScoreInput) :
    Option (Except ScoringError Float) :=
  (input.values.get? part.id).map part.score

/-- The entry of a part in the breakdown. -/
def scored (part : Part) (points bonus : Float) : PartScore where
  id := part.id
  label := part.label
  points := points
  bonus := bonus
  bonusScope :=
    if 0.0 < bonus then part.cooperativeBonus.map (·.appliesTo) else none

end Part

/-! ## The whole input -/

/-- What the pass over the parts has found so far. -/
structure PartPass where
  errors : List ScoringError
  scores : List PartScore

namespace PartPass

def refuse (pass : PartPass) (errors : List ScoringError) : PartPass where
  errors := pass.errors ++ errors
  scores := pass.scores

def accept (pass : PartPass) (score : PartScore) : PartPass where
  errors := pass.errors
  scores := pass.scores ++ [score]

/-- Judges one more part, as the loop of `calculate_match_score_with` does.  Its
group is checked even where the own value is missing or refused, and a part with
any fault has no score. -/
def visit (input : ScoreInput) (pass : PartPass) (part : Part) : PartPass :=
  match part.bonusPoints input, part.ownPoints input with
  | .ok _, none => pass
  | .ok _, some (.error cause) => pass.refuse [cause]
  | .ok bonus, some (.ok points) => pass.accept (part.scored points bonus)
  | .error causes, none => pass.refuse causes
  | .error causes, some (.error cause) => (pass.refuse causes).refuse [cause]
  | .error causes, some (.ok _) => pass.refuse causes

end PartPass

namespace Profile

/-- One error per part without a value, in the order of the parts. -/
def missingInputs (profile : Profile) (input : ScoreInput) :
    List ScoringError :=
  (profile.parts.filter fun part => !input.values.contains part.id).map
    fun part => .missingPartInput part.id

/-- The pass over all parts.  Missing values are reported before it begins. -/
def partPass (profile : Profile) (input : ScoreInput) : PartPass :=
  profile.parts.foldl (PartPass.visit input) ⟨profile.missingInputs input, []⟩

end Profile

/-! ## The formula -/

/-- The symbols of a formula, as `calculate_match_score_with` inserts them: each
part stands for its points and its bonus, and the penalty totals take their
names last, so that no part can. -/
def symbolTable (parts : List PartScore) (totals : PenaltyTotals) :
    Formula.SymbolTable :=
  KeyedTable.ofList
    (parts.map (fun part => (part.id, part.total)) ++
      [(selfPenaltiesName, totals.selfTotal),
        (opponentPenaltiesName, totals.opponentTotal),
        (netPenaltiesName, totals.net)])

/-- The value of a formula within the limits of the engine,
`evaluate_formula`. -/
def evaluateFormula (source : String) (symbols : Formula.SymbolTable)
    (settings : EngineSettings) : Except Formula.FormulaError Float :=
  if settings.maxFormulaLength < source.length then
    .error (.malformed (.tooLong source.length settings.maxFormulaLength))
  else
    match Formula.evaluate source symbols with
    | .error cause => .error cause
    | .ok value =>
      if value.isFinite then .ok value else .error .nonFiniteResult

/-- The final score: the formula's value, rounded by `round_to` if the settings
say so. -/
def finalScore (formulaValue : Float) (settings : EngineSettings) : Float :=
  match settings.scoreDecimals with
  | none => formulaValue
  | some decimals => Decimal.roundTo formulaValue decimals

namespace Profile

/-- The score of a match side, or every reason why it has none:
`calculate_match_score_with` of the engine, without its log. -/
def scoreMatch (profile : Profile) (input : ScoreInput)
    (settings : EngineSettings) : Except EvaluationFailure MatchScore :=
  let pass := profile.partPass input
  match aggregatePenalties profile.penalties input.penalties with
  | .error unknown => .error ⟨pass.errors ++ unknown⟩
  | .ok (totals, lines) =>
    if !pass.errors.isEmpty then .error ⟨pass.errors⟩
    else
      match evaluateFormula profile.totalFormula
          (symbolTable pass.scores totals) settings with
      | .error cause => .error ⟨[.formula cause]⟩
      | .ok formulaValue =>
        .ok
          { score := finalScore formulaValue settings
            breakdown :=
              { parts := pass.scores
                penalties := lines
                penaltyTotals := totals
                formulaValue := formulaValue } }

end Profile

end TournamentScoring
