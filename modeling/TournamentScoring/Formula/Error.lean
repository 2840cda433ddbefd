import TournamentScoring.Formula.Token

/-!
# What can be wrong with a formula

A formula can be malformed, which is a fact about its text alone, or it can fail
on the values that its identifiers stand for.
-/

namespace TournamentScoring.Formula

/-- How deep parentheses and negations may nest, `MAX_DEPTH` of the parser. -/
def nestingLimit : Nat := 256

/-- Why a text is no formula.  Positions count characters from zero. -/
inductive Malformation
  | tooLong (length limit : Nat)
  | invalidNumber (literal : String) (position : Nat)
  | nameAfterDigits (position : Nat)
  | unexpectedCharacter (character : Char) (position : Nat)
  | empty
  | unexpectedEnd
  | missingClose
  | expectedOperand (found : Token)
  | expectedClose (found : Token)
  | trailing (found : Token)
  | nestsTooDeep
deriving DecidableEq

def Malformation.message : Malformation → String
  | tooLong length limit =>
    s!"formula is {length} characters, limit is {limit}"
  | invalidNumber literal position =>
    s!"invalid numeric literal '{literal}' at position {position}"
  | nameAfterDigits position =>
    s!"identifier cannot start with a digit at position {position}"
  | unexpectedCharacter character position =>
    s!"unexpected character '{character}' at position {position}"
  | empty => "formula is empty"
  | unexpectedEnd => "unexpected end of formula"
  | missingClose => "unbalanced parentheses: missing ')'"
  | expectedOperand found =>
    s!"expected a number, identifier or '(' but found {found.describe}"
  | expectedClose found => s!"expected ')' but found {found.describe}"
  | trailing found => s!"unexpected {found.describe} after end of expression"
  | nestsTooDeep => s!"formula nests deeper than {nestingLimit} levels"

/-- Why a formula has no value. -/
inductive FormulaError
  | malformed (cause : Malformation)
  | unknownSymbol (name : String)
  | divisionByZero
  | nonFiniteResult
deriving DecidableEq

def FormulaError.message : FormulaError → String
  | malformed cause => s!"malformed formula: {cause.message}"
  | unknownSymbol name => s!"unknown symbol in formula: {name}"
  | divisionByZero => "division by zero in formula"
  | nonFiniteResult => "formula result is not a finite number"

end TournamentScoring.Formula
