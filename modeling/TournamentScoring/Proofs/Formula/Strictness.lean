import TournamentScoring.Proofs.Binary64.Identity
import TournamentScoring.Proofs.Formula.Evaluation
import TournamentScoring.Proofs.Formula.Height

/-!
# The first failure from the left

An expression is evaluated node by node, the operands of a node from the left and then
the node itself.  It has a value exactly if every node has one, and it fails at the
first node that is at fault.  Only the names that stand in it matter, and these are the
identifiers of the formula that it was read from.
-/

namespace TournamentScoring.Formula

open TournamentScoring.Binary64 (beq_zero_iff)

/-! ## Single steps -/

namespace BinaryOperator

/-- Only a division refuses an operand, and only a zero, whatever its sign. -/
def Refuses (operator : BinaryOperator) (right : Float) : Prop :=
  operator = divide ∧ (right = 0.0 ∨ right = -0.0)

variable {operator : BinaryOperator} {left right : Float}

theorem apply_of_refuses (hrefuses : operator.Refuses right) :
    operator.apply left right = .error .divisionByZero :=
  if_pos ⟨hrefuses.1, (beq_zero_iff right).mpr hrefuses.2⟩

theorem apply_of_not_refuses (hdivisor : ¬operator.Refuses right) :
    operator.apply left right =
      if (operator.compute left right).isFinite then .ok (operator.compute left right)
      else .error .nonFiniteResult :=
  if_neg fun hzero => hdivisor ⟨hzero.1, (beq_zero_iff right).mp hzero.2⟩

end BinaryOperator

namespace Expression

/-! ## Values and faults of nodes -/

/-- The nodes of an expression in the order of their evaluation. -/
def nodes : Expression → List Expression
  | number value => [number value]
  | symbol name => [symbol name]
  | negation operand => operand.nodes ++ [negation operand]
  | binary operator left right =>
    left.nodes ++ (right.nodes ++ [binary operator left right])

section

variable (symbols : SymbolTable)

/-- What an expression amounts to if all goes well. -/
inductive HasValue : Expression → Float → Prop
  | number (value : Float) : HasValue (number value) value
  | symbol {name : String} {value : Float} (hbound : symbols.get? name = some value) :
      HasValue (symbol name) value
  | negation {operand : Expression} {value : Float} (hoperand : HasValue operand value) :
      HasValue (negation operand) (-value)
  | binary {operator : BinaryOperator} {left right : Expression}
      {leftValue rightValue : Float} (hleft : HasValue left leftValue)
      (hright : HasValue right rightValue) (hdivisor : ¬operator.Refuses rightValue)
      (hfinite : (operator.compute leftValue rightValue).isFinite = true) :
      HasValue (binary operator left right) (operator.compute leftValue rightValue)

/-- What is wrong with a node whose operands have values. -/
inductive Fault : Expression → FormulaError → Prop
  | unbound {name : String} (hunbound : symbols.get? name = none) :
      Fault (symbol name) (.unknownSymbol name)
  | zeroDivisor {operator : BinaryOperator} {left right : Expression}
      {leftValue rightValue : Float} (hleft : HasValue symbols left leftValue)
      (hright : HasValue symbols right rightValue) (hdivisor : operator.Refuses rightValue) :
      Fault (binary operator left right) .divisionByZero
  | nonFinite {operator : BinaryOperator} {left right : Expression}
      {leftValue rightValue : Float} (hleft : HasValue symbols left leftValue)
      (hright : HasValue symbols right rightValue) (hdivisor : ¬operator.Refuses rightValue)
      (hnonFinite : (operator.compute leftValue rightValue).isFinite = false) :
      Fault (binary operator left right) .nonFiniteResult

/-- The first of these nodes that has no value is at fault for this reason. -/
def FirstFault (nodes : List Expression) (cause : FormulaError) : Prop :=
  ∃ before node after, nodes = before ++ node :: after ∧
    (∀ earlier ∈ before, ∃ value, earlier.HasValue symbols value) ∧
    node.Fault symbols cause

end

variable {symbols : SymbolTable}

theorem HasValue.evaluate_eq {expression : Expression} {value : Float}
    (hvalue : expression.HasValue symbols value) :
    expression.evaluate symbols = .ok value := by
  induction hvalue with
  | number value => rfl
  | symbol hbound => rw [evaluate, hbound]
  | negation hoperand ih => rw [evaluate, ih]
  | binary hleft hright hdivisor hfinite ihLeft ihRight =>
    rw [evaluate, ihLeft, ihRight]
    exact (BinaryOperator.apply_of_not_refuses hdivisor).trans (if_pos hfinite)

theorem Fault.evaluate_eq {node : Expression} {cause : FormulaError}
    (hfault : node.Fault symbols cause) : node.evaluate symbols = .error cause := by
  cases hfault with
  | unbound hunbound => rw [evaluate, hunbound]
  | zeroDivisor hleft hright hdivisor =>
    rw [evaluate, hleft.evaluate_eq, hright.evaluate_eq]
    exact BinaryOperator.apply_of_refuses hdivisor
  | nonFinite hleft hright hdivisor hnonFinite =>
    rw [evaluate, hleft.evaluate_eq, hright.evaluate_eq]
    exact (BinaryOperator.apply_of_not_refuses hdivisor).trans
      (if_neg (Bool.not_eq_true _ ▸ hnonFinite))

theorem mem_nodes_self (expression : Expression) : expression ∈ expression.nodes := by
  cases expression <;> simp [nodes]

/-- A value takes a value of every node. -/
theorem HasValue.exists_of_mem_nodes {expression : Expression} {value : Float}
    (hvalue : expression.HasValue symbols value) :
    ∀ node ∈ expression.nodes, ∃ value, node.HasValue symbols value := by
  induction hvalue with
  | number value => exact List.forall_mem_singleton.mpr ⟨value, .number value⟩
  | symbol hbound => exact List.forall_mem_singleton.mpr ⟨_, .symbol hbound⟩
  | negation hoperand ih =>
    exact List.forall_mem_append.mpr
      ⟨ih, List.forall_mem_singleton.mpr ⟨_, .negation hoperand⟩⟩
  | binary hleft hright hdivisor hfinite ihLeft ihRight =>
    exact List.forall_mem_append.mpr ⟨ihLeft, List.forall_mem_append.mpr
      ⟨ihRight, List.forall_mem_singleton.mpr ⟨_, .binary hleft hright hdivisor hfinite⟩⟩⟩

/-! ## The first fault -/

theorem FirstFault.append {nodes : List Expression} {cause : FormulaError}
    (hfault : FirstFault symbols nodes cause) (others : List Expression) :
    FirstFault symbols (nodes ++ others) cause := by
  obtain ⟨before, node, after, rfl, hbefore, hnode⟩ := hfault
  exact ⟨before, node, after ++ others, by simp, hbefore, hnode⟩

theorem FirstFault.prepend {nodes others : List Expression} {cause : FormulaError}
    (hothers : ∀ node ∈ others, ∃ value, node.HasValue symbols value)
    (hfault : FirstFault symbols nodes cause) :
    FirstFault symbols (others ++ nodes) cause := by
  obtain ⟨before, node, after, rfl, hbefore, hnode⟩ := hfault
  exact ⟨others ++ before, node, after, by simp,
    List.forall_mem_append.mpr ⟨hothers, hbefore⟩, hnode⟩

theorem Fault.firstFault {node : Expression} {cause : FormulaError}
    (hfault : node.Fault symbols cause) : FirstFault symbols [node] cause :=
  ⟨[], node, [], rfl, List.forall_mem_nil _, hfault⟩

/-- There are no two first faults: before the node of one every node has a value. -/
theorem FirstFault.cause_unique {nodes : List Expression} {cause other : FormulaError}
    (hfault : FirstFault symbols nodes cause) (hother : FirstFault symbols nodes other) :
    cause = other := by
  have hfound : ∀ {cause}, FirstFault symbols nodes cause → ∃ node,
      nodes.find? (fun node => !(node.evaluate symbols).isOk) = some node ∧
        node.evaluate symbols = .error cause := by
    rintro cause ⟨before, node, after, hnodes, hbefore, hnode⟩
    refine ⟨node, List.find?_eq_some_iff_append.mpr
      ⟨?_, before, after, hnodes, fun earlier hearlier => ?_⟩, hnode.evaluate_eq⟩
    · rw [hnode.evaluate_eq]
      rfl
    · obtain ⟨value, hvalue⟩ := hbefore earlier hearlier
      rw [hvalue.evaluate_eq]
      rfl
  obtain ⟨node, hnode, hcause⟩ := hfound hfault
  obtain ⟨node', hnode', hcause'⟩ := hfound hother
  obtain rfl : node = node' := Option.some.inj (hnode.symm.trans hnode')
  exact Except.error.inj (hcause.symm.trans hcause')

/-- An expression has a value, or evaluating it fails at the first fault. -/
theorem hasValue_or_fails (symbols : SymbolTable) (expression : Expression) :
    (∃ value, expression.HasValue symbols value) ∨
      ∃ cause, FirstFault symbols expression.nodes cause ∧
        expression.evaluate symbols = .error cause := by
  induction expression with
  | number value => exact .inl ⟨value, .number value⟩
  | symbol name =>
    cases hget : symbols.get? name with
    | some value => exact .inl ⟨value, .symbol hget⟩
    | none =>
      have hfault : (symbol name).Fault symbols _ := .unbound hget
      exact .inr ⟨_, hfault.firstFault, hfault.evaluate_eq⟩
  | negation operand ih =>
    rcases ih with ⟨value, hvalue⟩ | ⟨cause, hfault, herror⟩
    · exact .inl ⟨_, .negation hvalue⟩
    · exact .inr ⟨cause, hfault.append _, by rw [evaluate, herror]⟩
  | binary operator left right ihLeft ihRight =>
    rcases ihLeft with ⟨leftValue, hleft⟩ | ⟨cause, hfault, herror⟩
    · rcases ihRight with ⟨rightValue, hright⟩ | ⟨cause, hfault, herror⟩
      · -- Both operands have values, so the step itself decides.
        have hstep : ∀ {cause}, (binary operator left right).Fault symbols cause →
            FirstFault symbols (binary operator left right).nodes cause ∧
              (binary operator left right).evaluate symbols = .error cause := fun hfault =>
          ⟨.prepend hleft.exists_of_mem_nodes
            (.prepend hright.exists_of_mem_nodes hfault.firstFault), hfault.evaluate_eq⟩
        by_cases hdivisor : operator.Refuses rightValue
        · exact .inr ⟨_, hstep (.zeroDivisor hleft hright hdivisor)⟩
        · cases hfinite : (operator.compute leftValue rightValue).isFinite with
          | true => exact .inl ⟨_, .binary hleft hright hdivisor hfinite⟩
          | false => exact .inr ⟨_, hstep (.nonFinite hleft hright hdivisor hfinite)⟩
      · exact .inr ⟨cause, .prepend hleft.exists_of_mem_nodes (hfault.append _),
          by rw [evaluate, hleft.evaluate_eq, herror]⟩
    · exact .inr ⟨cause, hfault.append _, by rw [evaluate, herror]⟩

variable {expression : Expression}

theorem evaluate_eq_ok_iff {value : Float} :
    expression.evaluate symbols = .ok value ↔ expression.HasValue symbols value := by
  refine ⟨fun hevaluate => ?_, HasValue.evaluate_eq⟩
  rcases hasValue_or_fails symbols expression with ⟨found, hfound⟩ | ⟨cause, -, herror⟩
  · obtain rfl : value = found := Except.ok.inj (hevaluate.symm.trans hfound.evaluate_eq)
    exact hfound
  · cases hevaluate.symm.trans herror

theorem evaluate_eq_error_iff {cause : FormulaError} :
    expression.evaluate symbols = .error cause ↔
      FirstFault symbols expression.nodes cause := by
  rcases hasValue_or_fails symbols expression with ⟨value, hvalue⟩ | ⟨found, hfault, herror⟩
  · refine iff_of_false (fun hevaluate => ?_) ?_
    · cases hevaluate.symm.trans hvalue.evaluate_eq
    · -- The node at fault would have a value, as all nodes do.
      rintro ⟨before, node, after, hnodes, -, hnode⟩
      obtain ⟨nodeValue, hnodeValue⟩ :=
        hvalue.exists_of_mem_nodes node (by simp [hnodes])
      cases hnodeValue.evaluate_eq.symm.trans hnode.evaluate_eq
  · rw [herror, Except.error.injEq]
    exact ⟨fun heq => heq ▸ hfault, hfault.cause_unique⟩

theorem exists_evaluate_eq_ok_iff :
    (∃ value, expression.evaluate symbols = .ok value) ↔
      ∀ node ∈ expression.nodes, ∃ value, node.evaluate symbols = .ok value := by
  simp only [evaluate_eq_ok_iff]
  constructor
  · rintro ⟨value, hvalue⟩
    exact hvalue.exists_of_mem_nodes
  · intro hnodes
    exact hnodes expression expression.mem_nodes_self

theorem exists_error_of_unbound {name : String} (hname : name ∈ expression.names)
    (hunbound : name ∉ symbols.keys) :
    ∃ cause, expression.evaluate symbols = .error cause := by
  cases hevaluate : expression.evaluate symbols with
  | error cause => exact ⟨cause, rfl⟩
  | ok value => exact absurd (mem_keys_of_evaluate_eq_ok hevaluate hname) hunbound

end Expression

/-- The names of a compiled formula, each once, are the identifiers among its tokens. -/
theorem mem_symbols_iff_of_compile {source : String} {tree : Expression}
    (hcompile : compile source = .ok tree) :
    ∃ tokens, tokenize source = .ok tokens ∧
      ∀ name, name ∈ tree.symbols ↔ .identifier name ∈ tokens := by
  obtain ⟨tokens, htokens, hparse⟩ := compile_eq_ok_iff.mp hcompile
  refine ⟨tokens, htokens, fun name => ?_⟩
  rw [Expression.mem_symbols_iff, identifier_mem_iff_of_parse hparse]

/-! ## Strict evaluation from the left -/

/-- Evaluation succeeds exactly if every node of the expression evaluates, and then gives
the value that the steps amount to; else it fails at the first node at fault, for the
reason that is found there.  An unknown symbol is a name of the expression without a value,
any such name makes it fail, and tables that agree on its names give the same result.  The
names of a compiled formula are the identifiers among its tokens. -/
theorem evaluation_is_strict_from_the_left :
    (∀ (symbols : SymbolTable) (expression : Expression),
      ((∃ value, expression.evaluate symbols = .ok value) ↔
        ∀ node ∈ expression.nodes, ∃ value, node.evaluate symbols = .ok value) ∧
      (∀ value, expression.evaluate symbols = .ok value ↔
        expression.HasValue symbols value) ∧
      (∀ cause, expression.evaluate symbols = .error cause ↔
        ∃ before node after, expression.nodes = before ++ node :: after ∧
          (∀ earlier ∈ before, ∃ value, earlier.HasValue symbols value) ∧
          node.Fault symbols cause) ∧
      (∀ name, expression.evaluate symbols = .error (.unknownSymbol name) →
        name ∈ expression.symbols ∧ name ∉ symbols.keys) ∧
      (∀ name ∈ expression.symbols, name ∉ symbols.keys →
        ∃ cause, expression.evaluate symbols = .error cause) ∧
      ∀ others : SymbolTable,
        (∀ name ∈ expression.symbols, symbols.get? name = others.get? name) →
          expression.evaluate symbols = expression.evaluate others) ∧
    ∀ (source : String) (tree : Expression), compile source = .ok tree →
      ∃ tokens, tokenize source = .ok tokens ∧
        ∀ name, name ∈ tree.symbols ↔ .identifier name ∈ tokens := by
  refine ⟨fun symbols expression => ?_, fun source tree => mem_symbols_iff_of_compile⟩
  simp only [Expression.mem_symbols_iff]
  refine ⟨Expression.exists_evaluate_eq_ok_iff, fun value => Expression.evaluate_eq_ok_iff,
    fun cause => Expression.evaluate_eq_error_iff,
    fun name => Expression.mem_names_of_evaluate_eq_unknownSymbol,
    fun name hname hunbound => Expression.exists_error_of_unbound hname hunbound,
    fun others hagree => Expression.evaluate_congr hagree⟩

/-- A division by the name `z`, and a name behind it. -/
def quotientAndRest : Expression :=
  .binary .add (.binary .divide (.symbol "a") (.symbol "z")) (.symbol "rest")

/-- Values for the division, and one for a name that the formula does not mention. -/
def quotientTable (divisor : Float) : SymbolTable :=
  .ofList [("a", 1.0), ("other", 2.0), ("z", divisor)]

/-- With a negative zero as divisor the division fails, although the name behind it has
no value either; with another divisor this name is what fails. -/
theorem quotientAndRest_fails_at_the_zero :
    compile "a / z + rest" = .ok quotientAndRest ∧
      quotientAndRest.evaluate (quotientTable (-0.0)) = .error .divisionByZero ∧
      quotientAndRest.evaluate (.ofList [("a", 1.0), ("z", -0.0)]) =
        .error .divisionByZero ∧
      (∃ cause, quotientAndRest.evaluate (quotientTable 2.0) = .error cause) ∧
      quotientAndRest.evaluate (quotientTable 2.0) = .error (.unknownSymbol "rest") ∧
      "rest" ∈ quotientAndRest.symbols ∧ "rest" ∉ (quotientTable 2.0).keys ∧
      ∃ tokens, tokenize "a / z + rest" = .ok tokens ∧
        ∀ name, name ∈ quotientAndRest.symbols ↔ .identifier name ∈ tokens := by
  have hcompile : compile "a / z + rest" = .ok quotientAndRest := by
    cbv
  obtain ⟨hstrict, htokens⟩ := evaluation_is_strict_from_the_left
  have hzero : quotientAndRest.evaluate (quotientTable (-0.0)) =
      .error .divisionByZero := by
    decide +kernel
  have hunknown : quotientAndRest.evaluate (quotientTable 2.0) =
      .error (.unknownSymbol "rest") := by
    decide +kernel
  have hagree : ∀ name ∈ quotientAndRest.symbols,
      (quotientTable (-0.0)).get? name =
        (KeyedTable.ofList [("a", 1.0), ("z", -0.0)]).get? name := by
    decide +kernel
  obtain ⟨-, -, -, -, -, hothers⟩ := hstrict (quotientTable (-0.0)) quotientAndRest
  obtain ⟨-, -, -, hmissing, hfails, -⟩ := hstrict (quotientTable 2.0) quotientAndRest
  obtain ⟨hmem, hunbound⟩ := hmissing "rest" hunknown
  exact ⟨hcompile, hzero, (hothers _ hagree).symm.trans hzero,
    hfails "rest" hmem hunbound, hunknown, hmem, hunbound, htokens _ _ hcompile⟩

end TournamentScoring.Formula
