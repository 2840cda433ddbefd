import TournamentScoring.Formula.Expression

/-!
# The grammar of formulas

    expr  := term (('+' | '-') term)*
    term  := unary (('*' | '/') unary)*
    unary := '-' unary | atom
    atom  := NUMBER | IDENT | '(' expr ')'

A derivation is a tree of these rules.  It spells a list of tokens, it says how
many parentheses and negations enclose each of them, and it stands for one
expression, where both repetitions group to the left.  The grammar is
unambiguous: a list of tokens has at most one derivation, however deep it nests.
-/

namespace TournamentScoring.Formula

/-- The operators between the terms of an `expr`. -/
inductive SumOperator
  | add
  | subtract
deriving DecidableEq

/-- The operators between the factors of a `term`. -/
inductive ProductOperator
  | multiply
  | divide
deriving DecidableEq

def SumOperator.operator : SumOperator → BinaryOperator
  | add => .add
  | subtract => .subtract

def ProductOperator.operator : ProductOperator → BinaryOperator
  | multiply => .multiply
  | divide => .divide

/-- The token that an operator is written as. -/
def BinaryOperator.token : BinaryOperator → Token
  | add => .plus
  | subtract => .minus
  | multiply => .star
  | divide => .slash

def SumOperator.token (operator : SumOperator) : Token :=
  operator.operator.token

def ProductOperator.token (operator : ProductOperator) : Token :=
  operator.operator.token

theorem SumOperator.token_injective {left right : SumOperator}
    (htoken : left.token = right.token) : left = right := by
  cases left <;> cases right <;> first | rfl | cases htoken

theorem ProductOperator.token_injective {left right : ProductOperator}
    (htoken : left.token = right.token) : left = right := by
  cases left <;> cases right <;> first | rfl | cases htoken

theorem SumOperator.token_ne (operator : SumOperator)
    (other : ProductOperator) : operator.token ≠ other.token := by
  cases operator <;> cases other <;> decide

/-- The left sides of the rules and their two repetitions. -/
inductive Phrase
  | sum
  /-- What follows the first term of an `expr`. -/
  | addends
  | product
  /-- What follows the first factor of a `term`. -/
  | factors
  | unary
  | atom

inductive Derivation : Phrase → Type
  | sum (first : Derivation .product) (rest : Derivation .addends) :
      Derivation .sum
  | noAddend : Derivation .addends
  | addend (operator : SumOperator) (next : Derivation .product)
      (rest : Derivation .addends) : Derivation .addends
  | product (first : Derivation .unary) (rest : Derivation .factors) :
      Derivation .product
  | noFactor : Derivation .factors
  | factor (operator : ProductOperator) (next : Derivation .unary)
      (rest : Derivation .factors) : Derivation .factors
  | negation (operand : Derivation .unary) : Derivation .unary
  | atom (inner : Derivation .atom) : Derivation .unary
  | number (value : Float) : Derivation .atom
  | identifier (spelling : String) : Derivation .atom
  | group (inner : Derivation .sum) : Derivation .atom

/-- What a phrase stands for.  A repetition extends the expression on its left. -/
abbrev Phrase.Meaning : Phrase → Type
  | addends => Expression → Expression
  | factors => Expression → Expression
  | _ => Expression

namespace Derivation

/-- The tokens that a derivation spells. -/
def tokens {phrase : Phrase} : Derivation phrase → List Token
  | sum first rest => first.tokens ++ rest.tokens
  | noAddend => []
  | addend operator next rest =>
    operator.token :: (next.tokens ++ rest.tokens)
  | product first rest => first.tokens ++ rest.tokens
  | noFactor => []
  | factor operator next rest =>
    operator.token :: (next.tokens ++ rest.tokens)
  | negation operand => .minus :: operand.tokens
  | atom inner => inner.tokens
  | number value => [.number value]
  | identifier spelling => [.identifier spelling]
  | group inner => .openParen :: (inner.tokens ++ [.closeParen])

/-- The expression that a derivation stands for. -/
def tree {phrase : Phrase} : Derivation phrase → phrase.Meaning
  | sum first rest => rest.tree first.tree
  | noAddend => fun left => left
  | addend operator next rest => fun left =>
    rest.tree (Expression.binary operator.operator left next.tree)
  | product first rest => rest.tree first.tree
  | noFactor => fun left => left
  | factor operator next rest => fun left =>
    rest.tree (Expression.binary operator.operator left next.tree)
  | negation operand => Expression.negation operand.tree
  | atom inner => inner.tree
  | number value => Expression.number value
  | identifier spelling => Expression.symbol spelling
  | group inner => inner.tree

/-- The tokens of a derivation that stands under `depth` parentheses and
negations, each with the number of parentheses and negations that enclose it. -/
def places {phrase : Phrase} :
    Derivation phrase → Nat → List (Token × Nat)
  | sum first rest, depth => first.places depth ++ rest.places depth
  | noAddend, _ => []
  | addend operator next rest, depth =>
    (operator.token, depth) :: (next.places depth ++ rest.places depth)
  | product first rest, depth => first.places depth ++ rest.places depth
  | noFactor, _ => []
  | factor operator next rest, depth =>
    (operator.token, depth) :: (next.places depth ++ rest.places depth)
  | negation operand, depth =>
    (.minus, depth) :: operand.places (depth + 1)
  | atom inner, depth => inner.places depth
  | number value, depth => [(.number value, depth)]
  | identifier spelling, depth => [(.identifier spelling, depth)]
  | group inner, depth =>
    (.openParen, depth) ::
      (inner.places (depth + 1) ++ [(.closeParen, depth)])

/-- The places are the tokens in their order. -/
theorem map_fst_places {phrase : Phrase} (derivation : Derivation phrase)
    (depth : Nat) :
    (derivation.places depth).map Prod.fst = derivation.tokens := by
  induction derivation generalizing depth with
  | sum first rest ihFirst ihRest => simp [places, tokens, ihFirst, ihRest]
  | noAddend => rfl
  | addend operator next rest ihNext ihRest =>
    simp [places, tokens, ihNext, ihRest]
  | product first rest ihFirst ihRest =>
    simp [places, tokens, ihFirst, ihRest]
  | noFactor => rfl
  | factor operator next rest ihNext ihRest =>
    simp [places, tokens, ihNext, ihRest]
  | negation operand ih => simp [places, tokens, ih]
  | atom inner ih => exact ih depth
  | number value => rfl
  | identifier spelling => rfl
  | group inner ih => simp [places, tokens, ih]

end Derivation

/-! ## One derivation for each list of tokens -/

/-- What may follow a phrase so that it cannot be continued. -/
def Phrase.EndsBefore : Phrase → List Token → Prop
  | sum, after | addends, after =>
    (∀ operator : SumOperator, after.head? ≠ some operator.token) ∧
      ∀ operator : ProductOperator, after.head? ≠ some operator.token
  | product, after | factors, after =>
    ∀ operator : ProductOperator, after.head? ≠ some operator.token
  | unary, _ | atom, _ => True

theorem Phrase.sum_endsBefore_closeParen (after : List Token) :
    Phrase.sum.EndsBefore (.closeParen :: after) := by
  refine ⟨fun operator => ?_, fun operator => ?_⟩ <;>
    cases operator <;> simp [SumOperator.token, ProductOperator.token,
      SumOperator.operator, ProductOperator.operator, BinaryOperator.token]

/-- A term ends where the next addend begins. -/
theorem Phrase.product_endsBefore_addends (rest : Derivation .addends)
    {after : List Token} (hends : Phrase.addends.EndsBefore after) :
    Phrase.product.EndsBefore (rest.tokens ++ after) := by
  cases rest with
  | noAddend => exact hends.2
  | addend operator next rest =>
    intro other hhead
    exact operator.token_ne other (Option.some.inj hhead)

namespace Derivation

/-- From the same first token on, two derivations of a phrase that end before
the same tokens are equal.  The induction is on the first of them. -/
theorem eq_of_tokens_append_eq {phrase : Phrase}
    (left right : Derivation phrase) {afterLeft afterRight : List Token}
    (hleft : phrase.EndsBefore afterLeft)
    (hright : phrase.EndsBefore afterRight)
    (htokens : left.tokens ++ afterLeft = right.tokens ++ afterRight) :
    left = right ∧ afterLeft = afterRight := by
  induction left generalizing afterLeft afterRight with
  | sum first rest ihFirst ihRest =>
    cases right with
    | sum first' rest' =>
      rw [tokens, tokens, List.append_assoc, List.append_assoc] at htokens
      obtain ⟨rfl, hrest⟩ := ihFirst first'
        (Phrase.product_endsBefore_addends rest hleft)
        (Phrase.product_endsBefore_addends rest' hright) htokens
      obtain ⟨rfl, hafter⟩ := ihRest rest' hleft hright hrest
      exact ⟨rfl, hafter⟩
  | noAddend =>
    cases right with
    | noAddend => exact ⟨rfl, htokens⟩
    | addend operator next rest =>
      have hhead : afterLeft = operator.token ::
          (next.tokens ++ rest.tokens ++ afterRight) := htokens
      exact absurd (by rw [hhead]; rfl) (hleft.1 operator)
  | addend operator next rest ihNext ihRest =>
    cases right with
    | noAddend =>
      have hhead : operator.token ::
          (next.tokens ++ rest.tokens ++ afterLeft) = afterRight := htokens
      exact absurd (by rw [← hhead]; rfl) (hright.1 operator)
    | addend operator' next' rest' =>
      rw [tokens, tokens, List.cons_append, List.cons_append,
        List.append_assoc, List.append_assoc] at htokens
      obtain ⟨hoperator, hnext⟩ := List.cons.inj htokens
      obtain rfl := SumOperator.token_injective hoperator
      obtain ⟨rfl, hrest⟩ := ihNext next'
        (Phrase.product_endsBefore_addends rest hleft)
        (Phrase.product_endsBefore_addends rest' hright) hnext
      obtain ⟨rfl, hafter⟩ := ihRest rest' hleft hright hrest
      exact ⟨rfl, hafter⟩
  | product first rest ihFirst ihRest =>
    cases right with
    | product first' rest' =>
      rw [tokens, tokens, List.append_assoc, List.append_assoc] at htokens
      obtain ⟨rfl, hrest⟩ := ihFirst first' trivial trivial htokens
      obtain ⟨rfl, hafter⟩ := ihRest rest' hleft hright hrest
      exact ⟨rfl, hafter⟩
  | noFactor =>
    cases right with
    | noFactor => exact ⟨rfl, htokens⟩
    | factor operator next rest =>
      have hhead : afterLeft = operator.token ::
          (next.tokens ++ rest.tokens ++ afterRight) := htokens
      exact absurd (by rw [hhead]; rfl) (hleft operator)
  | factor operator next rest ihNext ihRest =>
    cases right with
    | noFactor =>
      have hhead : operator.token ::
          (next.tokens ++ rest.tokens ++ afterLeft) = afterRight := htokens
      exact absurd (by rw [← hhead]; rfl) (hright operator)
    | factor operator' next' rest' =>
      rw [tokens, tokens, List.cons_append, List.cons_append,
        List.append_assoc, List.append_assoc] at htokens
      obtain ⟨hoperator, hnext⟩ := List.cons.inj htokens
      obtain rfl := ProductOperator.token_injective hoperator
      obtain ⟨rfl, hrest⟩ := ihNext next' trivial trivial hnext
      obtain ⟨rfl, hafter⟩ := ihRest rest' hleft hright hrest
      exact ⟨rfl, hafter⟩
  | negation operand ih =>
    cases right with
    | negation operand' =>
      obtain ⟨rfl, hafter⟩ := ih operand' trivial trivial
        (List.cons.inj htokens).2
      exact ⟨rfl, hafter⟩
    | atom inner => cases inner <;> cases htokens
  | atom inner ih =>
    cases right with
    | negation operand => cases inner <;> cases htokens
    | atom inner' =>
      obtain ⟨rfl, hafter⟩ := ih inner' trivial trivial htokens
      exact ⟨rfl, hafter⟩
  | number value =>
    cases right with
    | number value' =>
      obtain ⟨hvalue, hafter⟩ := List.cons.inj htokens
      cases hvalue
      exact ⟨rfl, hafter⟩
    | identifier spelling => cases htokens
    | group inner => cases htokens
  | identifier spelling =>
    cases right with
    | number value => cases htokens
    | identifier spelling' =>
      obtain ⟨hspelling, hafter⟩ := List.cons.inj htokens
      cases hspelling
      exact ⟨rfl, hafter⟩
    | group inner => cases htokens
  | group inner ih =>
    cases right with
    | number value => cases htokens
    | identifier spelling => cases htokens
    | group inner' =>
      rw [tokens, tokens, List.cons_append, List.cons_append,
        List.append_assoc, List.append_assoc] at htokens
      obtain ⟨rfl, hafter⟩ := ih inner'
        (Phrase.sum_endsBefore_closeParen afterLeft)
        (Phrase.sum_endsBefore_closeParen afterRight)
        (List.cons.inj htokens).2
      exact ⟨rfl, (List.cons.inj hafter).2⟩

/-- The grammar is unambiguous. -/
theorem eq_of_tokens_eq {left right : Derivation .sum}
    (htokens : left.tokens = right.tokens) : left = right := by
  have hnil : Phrase.sum.EndsBefore [] :=
    ⟨fun _ => nofun, fun _ => nofun⟩
  refine (eq_of_tokens_append_eq left right hnil hnil ?_).1
  rw [htokens]

end Derivation

/-! ## Operands -/

/-- Whether a token is an operand on its own. -/
def Token.isOperand : Token → Bool
  | .number _ | .identifier _ => true
  | _ => false

/-- The operands of an expression from the left, each as its token. -/
def Expression.operands : Expression → List Token
  | .number value => [.number value]
  | .symbol spelling => [.identifier spelling]
  | .negation operand => operand.operands
  | .binary _ left right => left.operands ++ right.operands

theorem SumOperator.isOperand_token (operator : SumOperator) :
    operator.token.isOperand = false := by
  cases operator <;> rfl

theorem ProductOperator.isOperand_token (operator : ProductOperator) :
    operator.token.isOperand = false := by
  cases operator <;> rfl

/-- A meaning holds exactly the operands among some tokens, in their order. -/
def Phrase.HoldsOperands : (phrase : Phrase) → phrase.Meaning → List Token → Prop
  | addends, extend, tokens | factors, extend, tokens =>
    ∀ left : Expression,
      (extend left).operands = left.operands ++ tokens.filter Token.isOperand
  | sum, tree, tokens | product, tree, tokens | unary, tree, tokens
  | atom, tree, tokens =>
    Expression.operands tree = tokens.filter Token.isOperand

theorem Derivation.holdsOperands {phrase : Phrase}
    (derivation : Derivation phrase) :
    phrase.HoldsOperands derivation.tree derivation.tokens := by
  induction derivation with
  | sum first rest ihFirst ihRest | product first rest ihFirst ihRest =>
    have hrest := ihRest first.tree
    rw [show first.tree.operands = first.tokens.filter Token.isOperand from
      ihFirst, ← List.filter_append] at hrest
    exact hrest
  | noAddend | noFactor =>
    intro left
    exact (List.append_nil _).symm
  | addend operator next rest ihNext ihRest
  | factor operator next rest ihNext ihRest =>
    intro left
    have hnext : next.tree.operands = next.tokens.filter Token.isOperand :=
      ihNext
    have hrest : (rest.tree
        (Expression.binary operator.operator left next.tree)).operands =
        left.operands ++ next.tree.operands ++
          rest.tokens.filter Token.isOperand :=
      ihRest (Expression.binary operator.operator left next.tree)
    rw [hnext, List.append_assoc, ← List.filter_append] at hrest
    simpa [tokens, tree, operator.isOperand_token] using hrest
  | negation operand ih => exact ih
  | atom inner ih => exact ih
  | number value => rfl
  | identifier spelling => rfl
  | group inner ih =>
    have hclosed : (inner.tokens ++ [Token.closeParen]).filter
        Token.isOperand = inner.tokens.filter Token.isOperand := by
      simp [Token.isOperand]
    exact (show inner.tree.operands = _ from ih).trans hclosed.symm

/-- The names of an expression are the identifiers among its operands. -/
theorem Expression.identifier_mem_operands_iff {expression : Expression} {name : String} :
    Token.identifier name ∈ expression.operands ↔ name ∈ expression.names := by
  induction expression with
  | number value => simp [operands, names]
  | symbol spelling => simp [operands, names]
  | negation operand ih => exact ih
  | binary operator left right ihLeft ihRight =>
    rw [operands, names, List.mem_append, List.mem_append, ihLeft, ihRight]

end TournamentScoring.Formula
