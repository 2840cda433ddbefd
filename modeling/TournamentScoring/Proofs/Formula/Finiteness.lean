import TournamentScoring.Proofs.Binary64.Value
import TournamentScoring.Proofs.Formula.Lexing
import TournamentScoring.Proofs.Formula.Strictness
import TournamentScoring.Proofs.Scoring.FinalScore

/-!
# Finite values only

Only binary steps check their result.  The numbers of a formula are finite because no
other literal is a lexeme, and negation does not leave the finite floats, so with finite
symbols no node has another value.  The last check of the engine matters for symbols that
are not finite: a formula that is nothing but such a symbol has its value.
-/

namespace TournamentScoring.Formula

open TournamentScoring.Binary64

/-! ## The numbers of a formula -/

theorem isFinite_of_number_mem {text : List Char} {tokens : List Token}
    (hlexes : Lexes text tokens) {value : Float} (hmem : Token.number value ∈ tokens) :
    value.isFinite = true := by
  induction hlexes with
  | nil => cases hmem
  | blank hblank hrest ih => exact ih hmem
  | lexeme lexeme hlongest hafter hfinite hrest ih =>
    rcases List.mem_cons.mp hmem with hhead | htail
    · cases lexeme with
      | number literal =>
        cases hhead
        exact hfinite
      | name first rest hfirst hrest => cases hhead
      | symbol character token hsymbol =>
        obtain rfl : Token.number value = token := hhead
        simp [Token.punctuation] at hsymbol
    · exact ih htail

namespace Expression

/-- Every number that is written in the expression is finite. -/
def HasFiniteNumbers : Expression → Prop
  | number value => value.isFinite = true
  | symbol _ => True
  | negation operand => operand.HasFiniteNumbers
  | binary _ left right => left.HasFiniteNumbers ∧ right.HasFiniteNumbers

theorem hasFiniteNumbers_of_operands {expression : Expression}
    (hoperands : ∀ value, Token.number value ∈ expression.operands →
      value.isFinite = true) : expression.HasFiniteNumbers := by
  induction expression with
  | number value => exact hoperands value List.mem_cons_self
  | symbol name => trivial
  | negation operand ih => exact ih hoperands
  | binary operator left right ihLeft ihRight =>
    constructor
    · apply ihLeft
      intro value hmem
      exact hoperands value (List.mem_append_left _ hmem)
    · apply ihRight
      intro value hmem
      exact hoperands value (List.mem_append_right _ hmem)

theorem HasFiniteNumbers.forall_mem_nodes {expression : Expression}
    (hnumbers : expression.HasFiniteNumbers) :
    ∀ node ∈ expression.nodes, node.HasFiniteNumbers := by
  induction expression with
  | number value => exact List.forall_mem_singleton.mpr hnumbers
  | symbol name => exact List.forall_mem_singleton.mpr trivial
  | negation operand ih =>
    exact List.forall_mem_append.mpr
      ⟨ih hnumbers, List.forall_mem_singleton.mpr hnumbers⟩
  | binary operator left right ihLeft ihRight =>
    exact List.forall_mem_append.mpr ⟨ihLeft hnumbers.1, List.forall_mem_append.mpr
      ⟨ihRight hnumbers.2, List.forall_mem_singleton.mpr hnumbers⟩⟩

end Expression

theorem hasFiniteNumbers_of_compile {source : String} {tree : Expression}
    (hcompile : compile source = .ok tree) : tree.HasFiniteNumbers := by
  obtain ⟨tokens, htokens, hparse⟩ := compile_eq_ok_iff.mp hcompile
  obtain ⟨derivation, rfl, rfl, -⟩ := parse_eq_ok_iff.mp hparse
  have hoperands : derivation.tree.operands = derivation.tokens.filter Token.isOperand :=
    derivation.holdsOperands
  apply Expression.hasFiniteNumbers_of_operands
  intro value hmem
  rw [hoperands, List.mem_filter] at hmem
  exact isFinite_of_number_mem (tokenize_eq_ok_iff.mp htokens) hmem.1

/-! ## The values of a formula -/

/-- Every symbol stands for a finite value. -/
def SymbolTable.IsFinite (symbols : SymbolTable) : Prop :=
  ∀ name value, symbols.get? name = some value → value.isFinite = true

theorem Expression.HasValue.isFinite {symbols : SymbolTable} (hsymbols : symbols.IsFinite)
    {expression : Expression} {value : Float}
    (hvalue : expression.HasValue symbols value)
    (hnumbers : expression.HasFiniteNumbers) : value.isFinite = true := by
  induction hvalue with
  | number value => exact hnumbers
  | symbol hbound => exact hsymbols _ _ hbound
  | negation hoperand ih => exact (isFinite_neg _).trans (ih hnumbers)
  | binary hleft hright hdivisor hfinite => exact hfinite

section

variable {source : String} {symbols : SymbolTable}

theorem isFinite_of_mem_nodes (hsymbols : symbols.IsFinite) {tree : Expression}
    (hcompile : compile source = .ok tree) {node : Expression} (hnode : node ∈ tree.nodes)
    {value : Float} (hvalue : node.evaluate symbols = .ok value) :
    value.isFinite = true := by
  have hnumbers := (hasFiniteNumbers_of_compile hcompile).forall_mem_nodes node hnode
  exact (Expression.evaluate_eq_ok_iff.mp hvalue).isFinite hsymbols hnumbers

theorem isFinite_of_evaluate (hsymbols : symbols.IsFinite) {value : Float}
    (hvalue : evaluate source symbols = .ok value) : value.isFinite = true := by
  rw [evaluate] at hvalue
  split at hvalue
  · cases hvalue
  · next tree hcompile =>
    exact isFinite_of_mem_nodes hsymbols hcompile tree.mem_nodes_self hvalue

/-- With finite symbols the engine adds the limit on the length and no other check. -/
theorem evaluateFormula_eq_evaluate (hsymbols : symbols.IsFinite)
    (settings : EngineSettings) :
    evaluateFormula source symbols settings =
      if settings.maxFormulaLength < source.length then
        .error (.malformed (.tooLong source.length settings.maxFormulaLength))
      else evaluate source symbols := by
  rw [evaluateFormula]
  congr 1
  cases hvalue : evaluate source symbols with
  | error cause => rfl
  | ok value => exact if_pos (isFinite_of_evaluate hsymbols hvalue)

end

/-- If all symbols are finite, then every node of a compiled formula that has a value has
a finite one, and so has the formula; the last check of the engine never fails.  With any
symbols at all, the value that the engine returns is finite. -/
theorem formula_values_are_finite :
    (∀ (source : String) (symbols : SymbolTable), symbols.IsFinite →
      (∀ tree, compile source = .ok tree → ∀ node ∈ tree.nodes, ∀ value,
        node.evaluate symbols = .ok value → value.isFinite = true) ∧
      (∀ value, evaluate source symbols = .ok value → value.isFinite = true) ∧
      ∀ settings : EngineSettings, evaluateFormula source symbols settings =
        if settings.maxFormulaLength < source.length then
          .error (.malformed (.tooLong source.length settings.maxFormulaLength))
        else evaluate source symbols) ∧
    (∀ (source : String) (symbols : SymbolTable) (settings : EngineSettings) (value : Float),
      evaluateFormula source symbols settings = .ok value → value.isFinite = true) ∧
    ∀ (profile : Profile) (input : ScoreInput) (settings : EngineSettings)
      (result : MatchScore), profile.scoreMatch input settings = .ok result →
        result.breakdown.formulaValue.isFinite = true := by
  have hchecked : ∀ {source : String} {symbols : SymbolTable} {settings : EngineSettings}
      {value : Float}, evaluateFormula source symbols settings = .ok value →
      value.isFinite = true := by
    intro source symbols settings value hvalue
    obtain ⟨tree, -, -, hfinite⟩ := evaluateFormula_eq_ok hvalue
    exact hfinite
  refine ⟨?_, fun source symbols settings value => hchecked, ?_⟩
  · intro source symbols hsymbols
    refine ⟨?_, fun value => isFinite_of_evaluate hsymbols,
      evaluateFormula_eq_evaluate hsymbols⟩
    intro tree hcompile node hnode value hvalue
    exact isFinite_of_mem_nodes hsymbols hcompile hnode hvalue
  · intro profile input settings result hresult
    obtain ⟨formulaValue, -, hvalue, rfl⟩ := scoreMatch_eq_ok hresult
    exact hchecked hvalue

/-- A number behind a sign, times a name. -/
def signedProduct : Expression :=
  .binary .multiply (.negation (.number 1.5)) (.symbol "a")

/-- With the value two every node has a finite value, and the engine returns that of the
formula.  The infinity that the other name stands for is the value of its own formula, and
there only the last check refuses it. -/
theorem signedProduct_values :
    compile "-1.5 * a" = .ok signedProduct ∧
      SymbolTable.IsFinite (KeyedTable.empty.insert "a" 2.0) ∧
      (∀ node ∈ signedProduct.nodes, ∀ value,
        node.evaluate (KeyedTable.empty.insert "a" 2.0) = .ok value →
          value.isFinite = true) ∧
      evaluate "-1.5 * a" (KeyedTable.empty.insert "a" 2.0) = .ok (-3.0) ∧
      evaluateFormula "-1.5 * a" (KeyedTable.empty.insert "a" 2.0) EngineSettings.default =
        .ok (-3.0) ∧
      (-3.0 : Float).isFinite = true ∧
      evaluate "b" (KeyedTable.empty.insert "b" (1.0 / 0.0)) = .ok (1.0 / 0.0) ∧
      evaluateFormula "b" (KeyedTable.empty.insert "b" (1.0 / 0.0)) EngineSettings.default =
        .error .nonFiniteResult := by
  have hcompile : compile "-1.5 * a" = .ok signedProduct := by
    decide +kernel
  have hsymbols : SymbolTable.IsFinite (KeyedTable.empty.insert "a" 2.0) := by
    intro name value hvalue
    rw [KeyedTable.get?_insert] at hvalue
    split at hvalue
    · cases hvalue
      decide +kernel
    · cases hvalue
  have hvalue : evaluate "-1.5 * a" (KeyedTable.empty.insert "a" 2.0) = .ok (-3.0) := by
    rw [evaluate, hcompile]
    decide +kernel
  have hname : compile "b" = .ok (.symbol "b") := by
    cbv
  have hinfinity : evaluate "b" (KeyedTable.empty.insert "b" (1.0 / 0.0)) =
      .ok (1.0 / 0.0) := by
    rw [evaluate, hname]
    decide +kernel
  obtain ⟨hnodes, hfinite, hlimit⟩ := formula_values_are_finite.1 "-1.5 * a" _ hsymbols
  have hengine : evaluateFormula "-1.5 * a" (KeyedTable.empty.insert "a" 2.0)
      EngineSettings.default = .ok (-3.0) := by
    rw [hlimit, if_neg (by decide), hvalue]
  refine ⟨hcompile, hsymbols, hnodes _ hcompile, hvalue, hengine, hfinite _ hvalue,
    hinfinity, ?_⟩
  rw [evaluateFormula, hinfinity]
  decide +kernel

end TournamentScoring.Formula
