import TournamentScoring.Formula.Error
import TournamentScoring.KeyedTable

/-!
# Expressions and their values

An expression is evaluated strictly and from the left.  Only the binary steps
check their result, so a symbol may stand for a value that is not finite until
it is used in one.
-/

namespace TournamentScoring.Formula

inductive BinaryOperator
  | add
  | subtract
  | multiply
  | divide
deriving DecidableEq

/-- The trees that the parser builds, `Expr`. -/
inductive Expression
  | number (value : Float)
  | symbol (name : String)
  | negation (operand : Expression)
  | binary (operator : BinaryOperator) (left right : Expression)
deriving DecidableEq

/-- The values that identifiers stand for. -/
abbrev SymbolTable := KeyedTable Float

namespace BinaryOperator

def compute : BinaryOperator → Float → Float → Float
  | add, left, right => left + right
  | subtract, left, right => left - right
  | multiply, left, right => left * right
  | divide, left, right => left / right

/-- The value of a step, the binary arm of `evaluate`.  Both zeros are refused
as divisors. -/
def apply (operator : BinaryOperator) (left right : Float) :
    Except FormulaError Float :=
  if operator = divide ∧ right == 0.0 then .error .divisionByZero
  else
    let value := operator.compute left right
    if value.isFinite then .ok value else .error .nonFiniteResult

end BinaryOperator

namespace Expression

/-- The value of an expression, or the first failure from the left: `evaluate`
of `Expr`. -/
def evaluate (symbols : SymbolTable) : Expression → Except FormulaError Float
  | number value => .ok value
  | symbol name =>
    match symbols.get? name with
    | some value => .ok value
    | none => .error (.unknownSymbol name)
  | negation operand =>
    match operand.evaluate symbols with
    | .ok value => .ok (-value)
    | .error cause => .error cause
  | binary operator left right =>
    match left.evaluate symbols with
    | .error cause => .error cause
    | .ok leftValue =>
      match right.evaluate symbols with
      | .error cause => .error cause
      | .ok rightValue => operator.apply leftValue rightValue

/-- Every identifier of the expression, from the left. -/
def names : Expression → List String
  | number _ => []
  | symbol name => [name]
  | negation operand => operand.names
  | binary _ left right => left.names ++ right.names

/-- The identifiers of the expression in increasing order, each one once:
`symbols` of `Expr`. -/
def symbols (expression : Expression) : List String :=
  (KeyedTable.ofList (expression.names.map fun name => (name, ()))).keys

end Expression

end TournamentScoring.Formula
