import TournamentScoring.Decimal.Style

/-!
# Formula tokens

The words of a formula: numbers by value, identifiers by name, and six symbols.
-/

namespace TournamentScoring.Formula

inductive Token
  | number (value : Float)
  | identifier (name : String)
  | plus
  | minus
  | star
  | slash
  | openParen
  | closeParen
deriving DecidableEq

namespace Token

/-- The token that one character spells on its own. -/
def ofSymbol? : Char → Option Token
  | '+' => some plus
  | '-' => some minus
  | '*' => some star
  | '/' => some slash
  | '(' => some openParen
  | ')' => some closeParen
  | _ => none

/-- A token as error messages name it. -/
def describe : Token → String
  | number value => s!"number {Decimal.plainText value}"
  | identifier name => s!"identifier '{name}'"
  | plus => "'+'"
  | minus => "'-'"
  | star => "'*'"
  | slash => "'/'"
  | openParen => "'('"
  | closeParen => "')'"

end Token

end TournamentScoring.Formula
