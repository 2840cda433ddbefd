import TournamentScoring.Formula.Parser
import TournamentScoring.Proofs.KeyedTable

/-!
# The names that a value depends on

Evaluation is strict: an expression has a value only if every name in it has
one, and a name is reported as unknown only if it stands in the expression and
has no value.  A formula of blank characters is no expression at all.
-/

namespace TournamentScoring.Formula

theorem BinaryOperator.apply_eq_error {operator : BinaryOperator}
    {left right : Float} {cause : FormulaError}
    (happly : operator.apply left right = .error cause) :
    cause = .divisionByZero ∨ cause = .nonFiniteResult := by
  unfold apply at happly
  split at happly
  · exact Or.inl (Except.error.inj happly).symm
  · dsimp only at happly
    split at happly
    · cases happly
    · exact Or.inr (Except.error.inj happly).symm

namespace Expression

/-- What the operands of a binary step do when the whole step has a value. -/
theorem evaluate_binary_eq_ok {symbols : SymbolTable}
    {operator : BinaryOperator} {left right : Expression} {value : Float}
    (hvalue : (binary operator left right).evaluate symbols = .ok value) :
    ∃ leftValue rightValue, left.evaluate symbols = .ok leftValue ∧
      right.evaluate symbols = .ok rightValue ∧
      operator.apply leftValue rightValue = .ok value := by
  rw [evaluate] at hvalue
  split at hvalue
  · cases hvalue
  · rename_i leftValue hleft
    split at hvalue
    · cases hvalue
    · rename_i rightValue hright
      exact ⟨leftValue, rightValue, hleft, hright, hvalue⟩

/-- Where a failure of a binary step comes from. -/
theorem evaluate_binary_eq_error {symbols : SymbolTable}
    {operator : BinaryOperator} {left right : Expression}
    {cause : FormulaError}
    (herror : (binary operator left right).evaluate symbols = .error cause) :
    left.evaluate symbols = .error cause ∨
      right.evaluate symbols = .error cause ∨
      ∃ leftValue rightValue,
        operator.apply leftValue rightValue = .error cause := by
  rw [evaluate] at herror
  split at herror
  · rename_i hleft
    exact Or.inl (hleft.trans herror)
  · rename_i leftValue hleft
    split at herror
    · rename_i hright
      exact Or.inr (Or.inl (hright.trans herror))
    · rename_i rightValue hright
      exact Or.inr (Or.inr ⟨leftValue, rightValue, herror⟩)

/-- Two tables that agree on the names of an expression give it one value. -/
theorem evaluate_congr {symbols others : SymbolTable} {expression : Expression}
    (hagree : ∀ name ∈ expression.names, symbols.get? name = others.get? name) :
    expression.evaluate symbols = expression.evaluate others := by
  induction expression with
  | number number => rfl
  | symbol name =>
    rw [evaluate, evaluate, hagree name (List.mem_singleton_self name)]
  | negation operand ih => rw [evaluate, evaluate, ih hagree]
  | binary operator left right ihLeft ihRight =>
    have hleft := ihLeft fun name hname =>
      hagree name (List.mem_append_left _ hname)
    have hright := ihRight fun name hname =>
      hagree name (List.mem_append_right _ hname)
    rw [evaluate, evaluate, hleft, hright]

/-- Evaluation skips no name. -/
theorem mem_keys_of_evaluate_eq_ok {symbols : SymbolTable}
    {expression : Expression} {value : Float}
    (hvalue : expression.evaluate symbols = .ok value)
    {name : String} (hname : name ∈ expression.names) :
    name ∈ symbols.keys := by
  induction expression generalizing value with
  | number number => cases hname
  | symbol known =>
    rw [names, List.mem_singleton] at hname
    subst hname
    rw [evaluate] at hvalue
    split at hvalue
    · rename_i found hget
      rw [KeyedTable.mem_keys_iff_isSome, hget, Option.isSome_some]
    · cases hvalue
  | negation operand ih =>
    rw [evaluate] at hvalue
    split at hvalue
    · rename_i operandValue hoperand
      exact ih hoperand hname
    · cases hvalue
  | binary operator left right ihLeft ihRight =>
    obtain ⟨leftValue, rightValue, hleft, hright, _⟩ :=
      evaluate_binary_eq_ok hvalue
    rcases List.mem_append.mp hname with hname | hname
    · exact ihLeft hleft hname
    · exact ihRight hright hname

/-- A name that is reported as unknown stands in the expression and has no
value. -/
theorem mem_names_of_evaluate_eq_unknownSymbol {symbols : SymbolTable}
    {expression : Expression} {name : String}
    (herror : expression.evaluate symbols = .error (.unknownSymbol name)) :
    name ∈ expression.names ∧ name ∉ symbols.keys := by
  induction expression with
  | number number => cases herror
  | symbol known =>
    rw [evaluate] at herror
    split at herror
    · cases herror
    · rename_i hget
      cases herror
      exact ⟨List.mem_singleton_self _,
        (KeyedTable.get?_eq_none_iff symbols _).mp hget⟩
  | negation operand ih =>
    rw [evaluate] at herror
    split at herror
    · cases herror
    · rename_i cause hoperand
      exact ih (hoperand.trans herror)
  | binary operator left right ihLeft ihRight =>
    rcases evaluate_binary_eq_error herror with hleft | hright | happly
    · obtain ⟨hname, hkey⟩ := ihLeft hleft
      exact ⟨List.mem_append_left _ hname, hkey⟩
    · obtain ⟨hname, hkey⟩ := ihRight hright
      exact ⟨List.mem_append_right _ hname, hkey⟩
    · obtain ⟨leftValue, rightValue, happly⟩ := happly
      rcases BinaryOperator.apply_eq_error happly with hcause | hcause <;>
        cases hcause

/-- Evaluation never finds fault with the text of a formula. -/
theorem evaluate_ne_malformed (symbols : SymbolTable)
    (expression : Expression) (cause : Malformation) :
    expression.evaluate symbols ≠ .error (.malformed cause) := by
  induction expression with
  | number number => simp [evaluate]
  | symbol name =>
    rw [evaluate]
    split <;> simp
  | negation operand ih =>
    rw [evaluate]
    split
    · simp
    · rename_i found hoperand
      exact fun herror => ih (hoperand.trans herror)
  | binary operator left right ihLeft ihRight =>
    intro herror
    rcases evaluate_binary_eq_error herror with hleft | hright | happly
    · exact ihLeft hleft
    · exact ihRight hright
    · obtain ⟨leftValue, rightValue, happly⟩ := happly
      rcases BinaryOperator.apply_eq_error happly with hcause | hcause <;>
        cases hcause

theorem mem_symbols_iff (expression : Expression) (name : String) :
    name ∈ expression.symbols ↔ name ∈ expression.names := by
  rw [symbols, KeyedTable.mem_keys_ofList, List.map_map]
  simp

end Expression

/-! ## Blank formulas -/

open TournamentScoring.Text

theorem tokensFrom_of_all_isBlank {characters : List Char}
    (hblank : characters.all isBlank = true) (position : Nat) :
    tokensFrom position characters = .ok [] := by
  induction characters generalizing position with
  | nil => rw [tokensFrom]
  | cons head rest ih =>
    rw [List.all_cons, Bool.and_eq_true] at hblank
    rw [tokensFrom, if_pos hblank.1]
    exact ih hblank.2 (position + 1)

/-- Blank characters spell the empty list of tokens, which is no expression. -/
theorem compile_of_isBlankText {source : String}
    (hblank : isBlankText source = true) :
    compile source = .error .empty := by
  have htokens : tokenize source = .ok [] :=
    tokensFrom_of_all_isBlank hblank 0
  rw [compile, htokens]
  rfl

end TournamentScoring.Formula
