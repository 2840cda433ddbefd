import TournamentScoring.KeyedTable
import TournamentScoring.Toml.Moment

/-!
# Normal forms

In a document whose values are kept as they are, a table whose first key is the
reserved one stands for the moment that the text under this key spells; what else
the table holds does not count.  In normal form it is that moment, and every other
table lists its entries in increasing key order, whatever its keys are.
-/

namespace TournamentScoring.Toml

/-- The value under the reserved key, if a table starts with this key. -/
def leadingMoment? : List (String × Toml) → Option Toml
  | [] => none
  | (key, value) :: _ => if key = momentKey then some value else none

mutual

/-- The normal form of a value.  There is none if a table that stands for a moment
does not spell one. -/
def normalForm? : Toml → Option Toml
  | array items => (normalItems? items).map array
  | table entries =>
    match leadingMoment? entries with
    | some (text spelling) => momentOfText? spelling
    | some _ => none
    | none => (normalEntries? entries).map table
  | value => some value

def normalItems? : List Toml → Option (List Toml)
  | [] => some []
  | item :: items => do
    let item ← normalForm? item
    let items ← normalItems? items
    return item :: items

def normalEntries? : List (String × Toml) → Option (List (String × Toml))
  | [] => some []
  | (key, value) :: entries => do
    let value ← normalForm? value
    let entries ← normalEntries? entries
    return insertEntry key value entries

end

end TournamentScoring.Toml
