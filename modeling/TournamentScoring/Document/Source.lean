import TournamentScoring.Json.Basic

/-!
# What a document offers to its reader

A document is read from the left, and the first problem decides how it fails.
Whether a piece of text is a problem can depend on whether it is kept: a field
that nobody asked for is skipped, and skipping asks less of numbers and texts
than keeping them.  A variant is refused by its first character.  A `Source` is
therefore the tree of a document together with the places where keeping or reading
fails.  Nothing is read past a `stop`.
-/

namespace TournamentScoring.Document

/-- How a document can fail to be read. -/
inductive ReadError
  /-- The text is over before the value is. -/
  | endsEarly
  /-- The text does not follow the rules of its format. -/
  | illFormed
  /-- The value is not the one that was asked for. -/
  | mismatch
deriving DecidableEq

/-- What stands before the colon of a member. -/
inductive Label
  | name (key : String)
  /-- A key that can be skipped but not kept. -/
  | unfit (cause : ReadError)
  /-- Reading stops at the key, as the key is kept or skipped. -/
  | stop (kept skipped : ReadError)
deriving DecidableEq

inductive Source
  | null
  | boolean (value : Bool)
  | integer (value : Int)
  | float (value : Float)
  | text (value : String)
  /-- The items, and the problem that stands in place of the closing bracket. -/
  | array (items : List Source) (ending : Option ReadError)
  /-- The members, and the problem that stands in place of the closing brace. -/
  | object (members : List (Label × Source)) (ending : Option ReadError)
  /-- A number or text that can be skipped but not kept. -/
  | unfit (cause : ReadError)
  /-- Reading stops here, as the value is kept, skipped or read as a variant. -/
  | stop (kept skipped asVariant : ReadError)
deriving Inhabited

namespace Source

/-- The failure of a reader that asked for something else.  An array or object
is refused where it opens; any other value is read first. -/
def refusal : Source → ReadError
  | unfit cause => cause
  | stop kept _ _ => kept
  | _ => .mismatch

mutual

/-- The first problem that skipping a value meets. -/
def skip : Source → Option ReadError
  | stop _ skipped _ => some skipped
  | array items ending => (skipItems items).or ending
  | object members ending => (skipMembers members).or ending
  | _ => none

def skipItems : List Source → Option ReadError
  | [] => none
  | item :: items => (skip item).or (skipItems items)

def skipMembers : List (Label × Source) → Option ReadError
  | [] => none
  | (.stop _ skipped, _) :: _ => some skipped
  | (_, value) :: members => (skip value).or (skipMembers members)

end

mutual

/-- A value in memory is a document without any problem. -/
def ofJson : Json → Source
  | .null => null
  | .boolean value => boolean value
  | .integer value => integer value
  | .float value => float value
  | .text value => text value
  | .array items => array (ofItems items) none
  | .object members => object (ofMembers members) none

def ofItems : List Json → List Source
  | [] => []
  | item :: items => ofJson item :: ofItems items

def ofMembers : List (String × Json) → List (Label × Source)
  | [] => []
  | (key, value) :: members => (.name key, ofJson value) :: ofMembers members

end

end Source

end TournamentScoring.Document
