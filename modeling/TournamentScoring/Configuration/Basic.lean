import TournamentScoring.KeyedTable
import TournamentScoring.Scoring.Match
import TournamentScoring.Text.Blank

/-!
# Configurations

A configuration sets the limits of the engine, the level of the log and the
profile of each stage of a tournament.  Every setting may be left out.  A
configuration is used only if it breaks no rule; the first broken rule is
reported.
-/

namespace TournamentScoring

open TournamentScoring.Text

/-- The table `engine` of a configuration, `EngineConfig`. -/
structure EngineSection where
  maxFormulaLength : Option Nat
  scoreDecimals : Option UInt32
  logLevel : Option String
deriving DecidableEq

/-- The table `profiles`, `ProfilesConfig`: the profiles of the stages, and the
one for all stages without their own. -/
structure ProfilesSection where
  tournament : Option String
  stages : KeyedTable String
deriving DecidableEq

/-- A whole configuration, `MatchScoreConfig`. -/
structure Configuration where
  engine : Option EngineSection
  profiles : Option ProfilesSection
deriving DecidableEq

/-- The most places that a score may be rounded to, `MAX_SCORE_DECIMALS`. -/
def maxScoreDecimals : UInt32 := 6

/-- A rule that a configuration breaks. -/
inductive ConfigurationRule
  | positiveFormulaLength
  | fewScoreDecimals
  | presentLogLevel
  | presentTournamentPath
  | presentStagePath (stage : String)
deriving DecidableEq

def ConfigurationRule.message : ConfigurationRule → String
  | positiveFormulaLength => "engine.max_formula_length must be greater than 0"
  | fewScoreDecimals =>
    s!"engine.score_decimals must be between 0 and {maxScoreDecimals.toNat}"
  | presentLogLevel => "engine.log_level must not be empty"
  | presentTournamentPath => "profiles.tournament must be a non-empty path"
  | presentStagePath stage =>
    s!"profiles.stages entry '{stage}' must map a stage id to a non-empty path"

def EngineSection.brokenRules (engine : EngineSection) :
    List ConfigurationRule :=
  (if engine.maxFormulaLength = some 0 then [.positiveFormulaLength] else []) ++
    (if engine.scoreDecimals.any (fun decimals => maxScoreDecimals < decimals)
      then [.fewScoreDecimals] else []) ++
    if engine.logLevel.any isBlankText then [.presentLogLevel] else []

def ProfilesSection.brokenRules (profiles : ProfilesSection) :
    List ConfigurationRule :=
  (if profiles.tournament.any isBlankText then [.presentTournamentPath]
    else []) ++
    (profiles.stages.entries.filter fun entry =>
      isBlankText entry.1 || isBlankText entry.2).map
        fun entry => .presentStagePath entry.1

namespace Configuration

/-- The broken rules in the order of `validate`, which returns the first: the
engine's first and stages in key order. -/
def brokenRules (configuration : Configuration) : List ConfigurationRule :=
  (configuration.engine.map EngineSection.brokenRules).getD [] ++
    (configuration.profiles.map ProfilesSection.brokenRules).getD []

/-- The settings of the engine, `engine_settings`, with the defaults for what is
left out. -/
def engineSettings (configuration : Configuration) : EngineSettings :=
  match configuration.engine with
  | none => EngineSettings.default
  | some engine =>
    { maxFormulaLength :=
        engine.maxFormulaLength.getD EngineSettings.default.maxFormulaLength
      scoreDecimals := engine.scoreDecimals }

def logLevel (configuration : Configuration) : Option String :=
  configuration.engine.bind EngineSection.logLevel

end Configuration

end TournamentScoring
