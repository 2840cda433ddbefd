import TournamentScoring.Formula.Expression
import TournamentScoring.Formula.Lexer

/-!
# From tokens to expressions

The parser reads one token at a time and keeps what is still pending.  Each open
parenthesis has a level of its own, with at most one sum and one product that
wait for their right side and with the negations that wait for their operand.
`*` and `/` bind tighter than `+` and `-`, all four group to the left, and a
negation binds tightest.

An operand closes its negations at once, so the negations and open parentheses
of a state are exactly those that enclose the next token.  Their number is
limited; side by side there may be any number.
-/

namespace TournamentScoring.Formula

/-- A left side and the operator that waits for the right one. -/
structure Half where
  left : Expression
  operator : BinaryOperator
deriving DecidableEq

/-- The expression that a pending left side makes with its right side. -/
def Half.complete (half : Option Half) (right : Expression) : Expression :=
  match half with
  | none => right
  | some half => .binary half.operator half.left right

/-- What waits for an operand inside one pair of parentheses: the calls of
`expr`, `term` and `unary` that have not returned yet. -/
structure Level where
  sum : Option Half
  product : Option Half
  negations : Nat
deriving DecidableEq

namespace Level

def start : Level where
  sum := none
  product := none
  negations := 0

/-- The operand under the given number of negations. -/
def negate : Nat → Expression → Expression
  | 0, operand => operand
  | count + 1, operand => .negation (negate count operand)

/-- The product so far, once its operand is known. -/
def withOperand (level : Level) (operand : Expression) : Expression :=
  Half.complete level.product (negate level.negations operand)

end Level

/-- What the tokens read so far amount to. -/
inductive Progress
  /-- An operand must come next; outer levels wait for their groups. -/
  | awaiting (level : Level) (outer : List Level)
  /-- A product is complete and may be continued. -/
  | complete (sum : Option Half) (product : Expression) (outer : List Level)
deriving DecidableEq

namespace Progress

def start : Progress :=
  awaiting Level.start []

/-- The negations and parentheses that enclose the next operand, which `descend`
counts. -/
def nesting (level : Level) (outer : List Level) : Nat :=
  outer.foldl (fun count level => count + level.negations + 1) level.negations

/-- The state after an operand. -/
def withOperand (level : Level) (outer : List Level) (operand : Expression) :
    Progress :=
  complete level.sum (level.withOperand operand) outer

/-- The next state where an operand must come, one arm of `unary` or of
`atom`. -/
def readOperand (level : Level) (outer : List Level) (token : Token) :
    Except Malformation Progress :=
  match token with
  | .number value => .ok (withOperand level outer (.number value))
  | .identifier name => .ok (withOperand level outer (.symbol name))
  | .minus =>
    if nesting level outer < nestingLimit then
      .ok (awaiting ⟨level.sum, level.product, level.negations + 1⟩ outer)
    else .error .nestsTooDeep
  | .openParen =>
    if nesting level outer < nestingLimit then
      .ok (awaiting Level.start (level :: outer))
    else .error .nestsTooDeep
  | found => .error (.expectedOperand found)

/-- The next state after a complete product, where the loops of `term` and
`expr` go on or end. -/
def readOperator (sum : Option Half) (product : Expression)
    (outer : List Level) (token : Token) : Except Malformation Progress :=
  match token, outer with
  | .star, _ => .ok (awaiting ⟨sum, some ⟨product, .multiply⟩, 0⟩ outer)
  | .slash, _ => .ok (awaiting ⟨sum, some ⟨product, .divide⟩, 0⟩ outer)
  | .plus, _ =>
    .ok (awaiting ⟨some ⟨Half.complete sum product, .add⟩, none, 0⟩ outer)
  | .minus, _ =>
    .ok (awaiting ⟨some ⟨Half.complete sum product, .subtract⟩, none, 0⟩ outer)
  | .closeParen, level :: outer =>
    .ok (withOperand level outer (Half.complete sum product))
  | found, [] => .error (.trailing found)
  | found, _ :: _ => .error (.expectedClose found)

def read (progress : Progress) (token : Token) : Except Malformation Progress :=
  match progress with
  | awaiting level outer => readOperand level outer token
  | complete sum product outer => readOperator sum product outer token

/-- The state after a list of tokens. -/
def readAll (progress : Progress) : List Token → Except Malformation Progress
  | [] => .ok progress
  | token :: tokens =>
    match progress.read token with
    | .error cause => .error cause
    | .ok next => next.readAll tokens

/-- The expression, where the tokens may end. -/
def finish : Progress → Except Malformation Expression
  | awaiting _ _ => .error .unexpectedEnd
  | complete sum product [] => .ok (Half.complete sum product)
  | complete _ _ (_ :: _) => .error .missingClose

end Progress

/-- The expression that a list of tokens spells: `parse`, with the pending calls
of its recursion as states. -/
def parse (tokens : List Token) : Except Malformation Expression :=
  if tokens.isEmpty then .error .empty
  else
    match Progress.start.readAll tokens with
    | .error cause => .error cause
    | .ok progress => progress.finish

/-- The expression that a formula spells, `compile` of the formula language. -/
def compile (source : String) : Except Malformation Expression :=
  match tokenize source with
  | .error cause => .error cause
  | .ok tokens => parse tokens

/-- The value of a formula under a table of symbols, `evaluate` of the formula
language. -/
def evaluate (source : String) (symbols : SymbolTable) :
    Except FormulaError Float :=
  match compile source with
  | .error cause => .error (.malformed cause)
  | .ok expression => expression.evaluate symbols

end TournamentScoring.Formula
