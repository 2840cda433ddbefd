import TournamentScoring.Json.Printer
import TournamentScoring.KeyedTable

/-!
# Score inputs

What one match side achieved: a raw value per part, a count per penalty, and for
each part with a cooperative bonus the raw values of every team in the group, the
scored team included.  A raw value that is neither a flag nor a number is kept as
it is, so that the part it belongs to can refuse it by name.
-/

namespace TournamentScoring

/-- A raw value of an input, by the first of three untagged variants that takes
it. -/
inductive RawValue
  | flag (value : Bool)
  | number (value : Float)
  | other (value : Json)

namespace RawValue

def ofJson : Json → RawValue
  | .boolean value => flag value
  | .integer value => number (Float.ofInt value)
  | .float value => number value
  | value => other value

/-- A raw value as error messages show it. -/
def describe : RawValue → String
  | flag true => "true"
  | flag false => "false"
  | number value => Decimal.plainText value
  | other value => value.compact

end RawValue

/-- What one side achieved.  Each of the sections may be left out. -/
structure ScoreInput where
  values : KeyedTable RawValue
  penalties : KeyedTable UInt32
  cooperative : KeyedTable (List RawValue)

end TournamentScoring
