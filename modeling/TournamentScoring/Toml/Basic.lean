import TournamentScoring.Document.Source

/-!
# TOML values

A date or time is kept as its text in standard form.  Where a document is decoded
it stands as an object with one reserved key; that is what a raw value or a table
of any keys sees of it.  A table that is read from a text lists its entries in the
order in which the text makes them.
-/

namespace TournamentScoring

inductive Toml
  | text (value : String)
  | integer (value : Int)
  | float (value : Float)
  | boolean (value : Bool)
  | moment (spelling : String)
  | array (items : List Toml)
  /-- A table lists its entries, no key twice. -/
  | table (entries : List (String × Toml))
deriving Inhabited

namespace Toml

open Document

/-- The key under which a date or time stands in a document. -/
def momentKey : String := "$__toml_private_datetime"

mutual

/-- A TOML value as a document without any problem. -/
def toSource : Toml → Source
  | text value => .text value
  | integer value => .integer value
  | float value => .float value
  | boolean value => .boolean value
  | moment spelling => .object [(.name momentKey, .text spelling)] none
  | array items => .array (itemSources items) none
  | table entries => .object (entrySources entries) none

def itemSources : List Toml → List Source
  | [] => []
  | item :: items => toSource item :: itemSources items

def entrySources : List (String × Toml) → List (Label × Source)
  | [] => []
  | (key, value) :: entries => (.name key, toSource value) :: entrySources entries

end

end Toml

end TournamentScoring
