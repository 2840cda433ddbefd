import TournamentScoring.Formula.Parser
import TournamentScoring.Profile.Basic

/-!
# Checking a profile

Every broken rule is reported, in the order of the document, and none hides
another.  The rules on parts, bonuses and penalties are the structure of the
profile; the formula is checked apart from it, because scoring reports a faulty
formula by itself.
-/

namespace TournamentScoring

open TournamentScoring.Text

/-- What an id is the id of. -/
inductive Declaration
  | part
  | penalty
deriving DecidableEq

def Declaration.noun : Declaration → String
  | part => "part"
  | penalty => "penalty"

/-- A rule that a profile breaks. -/
inductive Issue
  | versionZero
  | noParts
  | notAnIdentifier (declaration : Declaration) (id : String)
  | reservedName (declaration : Declaration) (id : String)
  | duplicateId (declaration : Declaration) (id : String)
  | badPointsPerUnit (part : String)
  | badTruePoints (part : String)
  | badTeamCount (part : String) (found : UInt8)
  | noBonusPoints (part : String)
  | emptyFormula
  | formulaTooLong (length limit : Nat)
  | malformedFormula (cause : Formula.Malformation)
  | unknownSymbol (name : String)
deriving DecidableEq

def Issue.message : Issue → String
  | versionZero => "version must be at least 1"
  | noParts => "parts must not be empty"
  | notAnIdentifier declaration id =>
    s!"{declaration.noun} id '{id}' must match [A-Za-z_][A-Za-z0-9_]*"
  | reservedName declaration id =>
    s!"{declaration.noun} id '{id}' shadows a reserved penalty symbol"
  | duplicateId declaration id => s!"duplicate {declaration.noun} id: {id}"
  | badPointsPerUnit part =>
    s!"part '{part}': pointsPerUnit must be a non-negative number"
  | badTruePoints part =>
    s!"part '{part}': truePoints must be a non-negative number"
  | badTeamCount part found =>
    s!"part '{part}': cooperativeBonus.requiredTeamCount must be 2 or 4 " ++
      s!"(found {found.toNat})"
  | noBonusPoints part =>
    s!"part '{part}': cooperativeBonus.bonusPoints must be at least 1"
  | emptyFormula => "totalFormula must not be empty"
  | formulaTooLong length limit =>
    s!"totalFormula is {length} characters, limit is {limit}"
  | malformedFormula cause =>
    s!"totalFormula: {(Formula.FormulaError.malformed cause).message}"
  | unknownSymbol name => s!"totalFormula references unknown symbol: {name}"

/-- What is wrong with an id by itself, `check_identifier`.  A text that is no
identifier cannot be a reserved name, so there is at most one issue. -/
def idIssues (declaration : Declaration) (id : String) : List Issue :=
  if !isIdentifier id then [.notAnIdentifier declaration id]
  else if penaltyNames.contains id then [.reservedName declaration id]
  else []

/-- An id may not repeat an earlier one. -/
def repetitionIssues (declaration : Declaration) (earlier : List String)
    (id : String) : List Issue :=
  if earlier.contains id then [.duplicateId declaration id] else []

/-- Points of a part are finite and not negative. -/
def isPointValue (value : Float) : Bool :=
  value.isFinite && !(value < 0.0)

def CooperativeBonus.issues (bonus : CooperativeBonus) (part : String) :
    List Issue :=
  (if bonus.requiredTeamCount = 2 ∨ bonus.requiredTeamCount = 4 then []
    else [.badTeamCount part bonus.requiredTeamCount]) ++
    if bonus.bonusPoints = 0 then [.noBonusPoints part] else []

def PartKind.issues (part : String) : PartKind → List Issue
  | number pointsPerUnit _ =>
    if isPointValue pointsPerUnit then [] else [.badPointsPerUnit part]
  | boolean truePoints =>
    if isPointValue truePoints then [] else [.badTruePoints part]

/-- The issues of a part that follows parts with the given ids. -/
def Part.issues (part : Part) (earlier : List String) : List Issue :=
  idIssues .part part.id ++ repetitionIssues .part earlier part.id ++
    part.kind.issues part.id ++
    match part.cooperativeBonus with
    | none => []
    | some bonus => bonus.issues part.id

def PenaltyRule.issues (rule : PenaltyRule) (earlier : List String) :
    List Issue :=
  idIssues .penalty rule.id ++ repetitionIssues .penalty earlier rule.id

def partIssues (earlier : List String) : List Part → List Issue
  | [] => []
  | part :: parts =>
    part.issues earlier ++ partIssues (part.id :: earlier) parts

def penaltyIssues (earlier : List String) : List PenaltyRule → List Issue
  | [] => []
  | rule :: rules =>
    rule.issues earlier ++ penaltyIssues (rule.id :: earlier) rules

namespace Profile

/-- The issues of the parts, bonuses and penalties, in the order of
`structure_issues`. -/
def structureIssues (profile : Profile) : List Issue :=
  (if profile.version = 0 then [.versionZero] else []) ++
    (if profile.parts.isEmpty then [.noParts] else []) ++
    partIssues [] profile.parts ++ penaltyIssues [] profile.penalties

/-- The issues of the formula, `validate_formula`.  An empty or too long formula
is not read. -/
def formulaIssues (profile : Profile) (maxFormulaLength : Nat) : List Issue :=
  if isBlankText profile.totalFormula then [.emptyFormula]
  else if maxFormulaLength < profile.totalFormula.length then
    [.formulaTooLong profile.totalFormula.length maxFormulaLength]
  else
    match Formula.compile profile.totalFormula with
    | .error cause => [.malformedFormula cause]
    | .ok expression =>
      (expression.symbols.filter fun name =>
        !profile.formulaSymbols.contains name).map Issue.unknownSymbol

/-- Everything that is wrong with a profile, `validate`. -/
def issues (profile : Profile) (maxFormulaLength : Nat) : List Issue :=
  profile.structureIssues ++ profile.formulaIssues maxFormulaLength

end Profile

end TournamentScoring
