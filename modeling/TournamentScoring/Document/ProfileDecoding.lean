import TournamentScoring.Document.Decoding
import TournamentScoring.Profile.Basic

/-!
# Profiles in documents

The fields of a profile, its parts and its penalties.  A part is read in two
steps.  Its own fields are read where they stand; all other members are kept
until the part is complete, since only then its `type` is known for certain, and
the fields of that kind are taken from them.
-/

namespace TournamentScoring

open Document

def BonusScope.ofName? : String → Option BonusScope
  | "ALL_TEAMS" => some allTeams
  | "PER_TEAM" => some perTeam
  | _ => none

def PenaltyTarget.ofName? : String → Option PenaltyTarget
  | "SELF" => some self
  | "OPPONENT" => some opponent
  | _ => none

def PenaltyDirection.ofName? : String → Option PenaltyDirection
  | "ADD" => some add
  | "SUBTRACT" => some subtract
  | _ => none

/-! ## Bonuses and penalties -/

structure CooperativeBonus.Draft where
  requiredTeamCount : Option UInt8
  bonusPoints : Option UInt32
  appliesTo : Option BonusScope
  description : Option (Option String)

def CooperativeBonus.recordDecoder :
    RecordDecoder CooperativeBonus.Draft CooperativeBonus where
  fields := ["requiredTeamCount", "bonusPoints", "appliesTo", "description"]
  start := ⟨none, none, none, none⟩
  put dialect draft field source :=
    match field with
    | "requiredTeamCount" =>
      some (fill .word8 draft.requiredTeamCount
        (fun value => { draft with requiredTeamCount := some value })
        dialect source)
    | "bonusPoints" =>
      some (fill .word32 draft.bonusPoints
        (fun value => { draft with bonusPoints := some value }) dialect source)
    | "appliesTo" =>
      some (fill (.variant BonusScope.ofName?) draft.appliesTo
        (fun value => { draft with appliesTo := some value }) dialect source)
    | "description" =>
      some (fill (.optional .text) draft.description
        (fun value => { draft with description := some value }) dialect source)
    | _ => none
  finish _ draft := do
    let requiredTeamCount ← require draft.requiredTeamCount
    let bonusPoints ← require draft.bonusPoints
    let appliesTo ← require draft.appliesTo
    return ⟨requiredTeamCount, bonusPoints, appliesTo, draft.description.join⟩

def CooperativeBonus.decoder : Decoder CooperativeBonus :=
  CooperativeBonus.recordDecoder.decoder

structure PenaltyRule.Draft where
  id : Option String
  label : Option String
  description : Option (Option String)
  points : Option UInt32
  target : Option PenaltyTarget
  direction : Option PenaltyDirection

def PenaltyRule.recordDecoder :
    RecordDecoder PenaltyRule.Draft PenaltyRule where
  fields := ["id", "label", "description", "points", "target", "direction"]
  start := ⟨none, none, none, none, none, none⟩
  put dialect draft field source :=
    match field with
    | "id" =>
      some (fill .text draft.id
        (fun value => { draft with id := some value }) dialect source)
    | "label" =>
      some (fill .text draft.label
        (fun value => { draft with label := some value }) dialect source)
    | "description" =>
      some (fill (.optional .text) draft.description
        (fun value => { draft with description := some value }) dialect source)
    | "points" =>
      some (fill .word32 draft.points
        (fun value => { draft with points := some value }) dialect source)
    | "target" =>
      some (fill (.variant PenaltyTarget.ofName?) draft.target
        (fun value => { draft with target := some value }) dialect source)
    | "direction" =>
      some (fill (.variant PenaltyDirection.ofName?) draft.direction
        (fun value => { draft with direction := some value }) dialect source)
    | _ => none
  finish _ draft := do
    let id ← require draft.id
    let label ← require draft.label
    let points ← require draft.points
    let target ← require draft.target
    let direction ← require draft.direction
    return ⟨id, label, draft.description.join, points, target, direction⟩

def PenaltyRule.decoder : Decoder PenaltyRule :=
  PenaltyRule.recordDecoder.decoder

/-! ## Parts -/

/-- The values of all members with one key. -/
def valuesOf (key : String) (members : List (String × Json)) : List Json :=
  (members.filter fun member => member.1 == key).map (·.2)

/-- The value of a field that must stand exactly once. -/
def onlyValue (key : String) (members : List (String × Json)) :
    Except ReadError Json :=
  match valuesOf key members with
  | [value] => .ok value
  | _ => .error .mismatch

/-- The value of a field that may stand once. -/
def optionalValue (key : String) (members : List (String × Json)) :
    Except ReadError (Option Json) :=
  match valuesOf key members with
  | [] => .ok none
  | [.null] => .ok none
  | [value] => .ok (some value)
  | _ => .error .mismatch

def floatOf : Json → Except ReadError Float
  | .integer value => .ok (Float.ofInt value)
  | .float value => .ok value
  | _ => .error .mismatch

def word32Of : Json → Except ReadError UInt32
  | .integer value =>
    if 0 ≤ value ∧ value < UInt32.size then .ok (UInt32.ofNat value.toNat)
    else .error .mismatch
  | _ => .error .mismatch

/-- Which kind a part has. -/
inductive KindTag
  | number
  | boolean
deriving DecidableEq

def KindTag.ofJson (dialect : Dialect) : Json → Except ReadError KindTag
  | .text "number" => .ok number
  | .text "boolean" => .ok boolean
  | .integer 0 => if dialect.kindByNumber then .ok number else .error .mismatch
  | .integer 1 => if dialect.kindByNumber then .ok boolean else .error .mismatch
  | _ => .error .mismatch

/-- The kind of a part, from the members that are not its own fields: the field
`kind` is flattened, and `type` is its tag.  Fields of the other kind are
ignored, however often they stand. -/
def PartKind.ofMembers (dialect : Dialect) (members : List (String × Json)) :
    Except ReadError PartKind := do
  let tagValue ← onlyValue "type" members
  match ← KindTag.ofJson dialect tagValue with
  | .number =>
    let pointsPerUnit ← onlyValue "pointsPerUnit" members
    let pointsPerUnit ← floatOf pointsPerUnit
    let maxValue ← optionalValue "maxValue" members
    match maxValue with
    | none => return .number pointsPerUnit none
    | some value =>
      let maxValue ← word32Of value
      return .number pointsPerUnit (some maxValue)
  | .boolean =>
    let truePoints ← onlyValue "truePoints" members
    let truePoints ← floatOf truePoints
    return .boolean truePoints

structure Part.Draft where
  id : Option String
  label : Option String
  description : Option (Option String)
  cooperativeBonus : Option (Option CooperativeBonus)
  /-- The other members, in their order. -/
  others : List (String × Json)

def Part.recordDecoder : RecordDecoder Part.Draft Part where
  fields := []
  start := ⟨none, none, none, none, []⟩
  put dialect draft field source :=
    match field with
    | "id" =>
      some (fill .text draft.id
        (fun value => { draft with id := some value }) dialect source)
    | "label" =>
      some (fill .text draft.label
        (fun value => { draft with label := some value }) dialect source)
    | "description" =>
      some (fill (.optional .text) draft.description
        (fun value => { draft with description := some value }) dialect source)
    | "cooperativeBonus" =>
      some (fill (.optional CooperativeBonus.decoder) draft.cooperativeBonus
        (fun value => { draft with cooperativeBonus := some value })
        dialect source)
    | other =>
      some ((Decoder.whole dialect source).map fun value =>
        { draft with others := draft.others ++ [(other, value)] })
  finish dialect draft := do
    let id ← require draft.id
    let label ← require draft.label
    let kind ← PartKind.ofMembers dialect draft.others
    return ⟨id, label, draft.description.join, draft.cooperativeBonus.join,
      kind⟩

/-- A part has no array form, as it has a flattened field. -/
def Part.decoder : Decoder Part :=
  Part.recordDecoder.objectDecoder

/-! ## Profiles -/

structure Profile.Draft where
  version : Option UInt32
  parts : Option (List Part)
  penalties : Option (List PenaltyRule)
  totalFormula : Option String
  notes : Option (Option String)

def Profile.recordDecoder : RecordDecoder Profile.Draft Profile where
  fields := ["version", "parts", "penalties", "totalFormula", "notes"]
  start := ⟨none, none, none, none, none⟩
  put dialect draft field source :=
    match field with
    | "version" =>
      some (fill .word32 draft.version
        (fun value => { draft with version := some value }) dialect source)
    | "parts" =>
      some (fill (.list Part.decoder) draft.parts
        (fun value => { draft with parts := some value }) dialect source)
    | "penalties" =>
      some (fill (.list PenaltyRule.decoder) draft.penalties
        (fun value => { draft with penalties := some value }) dialect source)
    | "totalFormula" =>
      some (fill .text draft.totalFormula
        (fun value => { draft with totalFormula := some value })
        dialect source)
    | "notes" =>
      some (fill (.optional .text) draft.notes
        (fun value => { draft with notes := some value }) dialect source)
    | _ => none
  finish _ draft := do
    let version ← require draft.version
    let parts ← require draft.parts
    let totalFormula ← require draft.totalFormula
    return ⟨version, parts, draft.penalties.getD [], totalFormula,
      draft.notes.join⟩

/-- The derived decoding of `ScoreProfileDefinition`. -/
def Profile.decoder : Decoder Profile :=
  Profile.recordDecoder.decoder

end TournamentScoring
