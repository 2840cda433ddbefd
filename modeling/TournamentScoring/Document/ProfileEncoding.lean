import TournamentScoring.Sha256
import TournamentScoring.Json.Printer
import TournamentScoring.Profile.Basic

/-!
# The canonical form of a profile

Every profile has one JSON form: the fields in a fixed order, absent options left
out.  The digest of its compact text identifies the profile however its document
was laid out.
-/

namespace TournamentScoring

def BonusScope.name : BonusScope → String
  | allTeams => "ALL_TEAMS"
  | perTeam => "PER_TEAM"

def PenaltyTarget.name : PenaltyTarget → String
  | self => "SELF"
  | opponent => "OPPONENT"

def PenaltyDirection.name : PenaltyDirection → String
  | add => "ADD"
  | subtract => "SUBTRACT"

namespace Json

def word (value : UInt32) : Json :=
  natural value.toNat

/-- A member that is left out where its value is absent. -/
def optionalMember {α : Type} (key : String) (encode : α → Json) :
    Option α → List (String × Json)
  | none => []
  | some value => [(key, encode value)]

end Json

def CooperativeBonus.toJson (bonus : CooperativeBonus) : Json :=
  .object
    ([("requiredTeamCount", .natural bonus.requiredTeamCount.toNat),
      ("bonusPoints", .word bonus.bonusPoints),
      ("appliesTo", .text bonus.appliesTo.name)] ++
      Json.optionalMember "description" .text bonus.description)

/-- The kind of a part with the fields that belong to it. -/
def PartKind.members : PartKind → List (String × Json)
  | number pointsPerUnit maxValue =>
    [("type", .text "number"), ("pointsPerUnit", .float pointsPerUnit)] ++
      Json.optionalMember "maxValue" .word maxValue
  | boolean truePoints =>
    [("type", .text "boolean"), ("truePoints", .float truePoints)]

def Part.toJson (part : Part) : Json :=
  .object
    ([("id", .text part.id), ("label", .text part.label)] ++
      Json.optionalMember "description" .text part.description ++
      Json.optionalMember "cooperativeBonus" CooperativeBonus.toJson
        part.cooperativeBonus ++
      part.kind.members)

def PenaltyRule.toJson (rule : PenaltyRule) : Json :=
  .object
    ([("id", .text rule.id), ("label", .text rule.label)] ++
      Json.optionalMember "description" .text rule.description ++
      [("points", .word rule.points), ("target", .text rule.target.name),
        ("direction", .text rule.direction.name)])

namespace Profile

/-- The fields of `ScoreProfileDefinition` in the order of their declaration. -/
def toJson (profile : Profile) : Json :=
  .object
    ([("version", .word profile.version),
      ("parts", .array (profile.parts.map Part.toJson)),
      ("penalties", .array (profile.penalties.map PenaltyRule.toJson)),
      ("totalFormula", .text profile.totalFormula)] ++
      Json.optionalMember "notes" .text profile.notes)

/-- The compact JSON text of a profile, which `profile_digest` hashes. -/
def canonicalText (profile : Profile) : String :=
  profile.toJson.compact

/-- The SHA-256 of the canonical text, `profile_digest`. -/
def digest (profile : Profile) : String :=
  Sha256.digest profile.canonicalText.toUTF8.toList

end Profile

end TournamentScoring
