/-!
# JSON values

Numbers are whole numbers or floats, as their spelling says.  The members of an
object are listed in order and keys may repeat; `ofEntries` builds an object in
increasing key order in which the last member with a key wins.
-/

namespace TournamentScoring

inductive Json
  | null
  | boolean (value : Bool)
  | integer (value : Int)
  | float (value : Float)
  | text (value : String)
  | array (items : List Json)
  | object (members : List (String × Json))
deriving Inhabited

namespace Json

/-- The number of a document that counts something. -/
def natural (value : Nat) : Json :=
  integer value

end Json

end TournamentScoring
