/-!
# Identifiers

The names that a formula can mention.  Part and penalty ids obey the same rule,
so that every declared id can be used in a formula.  Only ASCII letters and
digits count.
-/

namespace TournamentScoring.Text

def isNameStart (character : Char) : Bool :=
  character.isAlpha || character == '_'

def isNameRest (character : Char) : Bool :=
  character.isAlphanum || character == '_'

/-- One letter or underscore, then letters, digits and underscores. -/
def isIdentifier (text : String) : Bool :=
  match text.toList with
  | [] => false
  | first :: rest => isNameStart first && rest.all isNameRest

end TournamentScoring.Text
