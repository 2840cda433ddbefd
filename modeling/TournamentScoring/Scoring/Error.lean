import TournamentScoring.Formula.Error
import TournamentScoring.Profile.Basic
import TournamentScoring.ScoreInput

/-!
# Why a match side cannot be scored

Scoring errors are data: all errors of an input are collected and reported
together, each with its kind and its message.
-/

namespace TournamentScoring

/-- Why a part refuses a raw value: the reasons that `check_count`,
`type_mismatch` and `score_part` spell out. -/
inductive ValueFault
  /-- A count that is negative or not finite. -/
  | notACount (value : Float)
  /-- A value of another kind than the part's. -/
  | wrongKind (kind : PartKind) (value : RawValue)
  /-- A count whose points are not finite. -/
  | overflow (value : Float)

def PartKind.expectation : PartKind → String
  | number _ _ => "a number"
  | boolean _ => "a boolean"

def ValueFault.message : ValueFault → String
  | notACount value =>
    s!"expected a non-negative number, got {Decimal.plainText value}"
  | wrongKind kind value =>
    s!"expected {kind.expectation}, got {value.describe}"
  | overflow value =>
    s!"{Decimal.plainText value} units overflow the points range"

/-- Why an input has no score.  The four errors of a formula that `ScoringError`
lists beside the others are one here. -/
inductive ScoringError
  | missingPartInput (part : String)
  | invalidPartValue (part : String) (fault : ValueFault)
  | groupSizeMismatch (part : String) (required : UInt8) (supplied : Nat)
  | unknownPenaltyId (id : String)
  | formula (cause : Formula.FormulaError)

namespace ScoringError

/-- The name of the kind of an error. -/
def kind : ScoringError → String
  | missingPartInput _ => "MissingPartInput"
  | invalidPartValue _ _ => "InvalidPartValue"
  | groupSizeMismatch _ _ _ => "CooperativeGroupSizeMismatch"
  | unknownPenaltyId _ => "UnknownPenaltyId"
  | formula (.malformed _) => "MalformedFormula"
  | formula (.unknownSymbol _) => "UnknownSymbol"
  | formula .divisionByZero => "DivisionByZero"
  | formula .nonFiniteResult => "NonFiniteResult"

def message : ScoringError → String
  | missingPartInput part => s!"missing score input for part '{part}'"
  | invalidPartValue part fault =>
    s!"invalid value for part '{part}': {fault.message}"
  | groupSizeMismatch part required supplied =>
    s!"cooperative bonus for part '{part}' requires {required.toNat} " ++
      s!"team values, got {supplied}"
  | unknownPenaltyId id => s!"unknown penalty id: {id}"
  | formula cause => cause.message

/-- An error as reports show it, its kind before its message. -/
def describe (error : ScoringError) : String :=
  s!"{error.kind}: {error.message}"

end ScoringError

end TournamentScoring
