import TournamentScoring.Proofs.Formula.Evaluation
import TournamentScoring.Proofs.Formula.Lexing
import TournamentScoring.Proofs.Formula.Parsing

/-!
# How deep an expression goes

A walk through an expression calls itself once for every step to an operand.  The
limit on nesting bounds the steps to right operands and under negations: no path
takes more than 514 of them, two inside each group.  It does not bound the steps to
left operands, since a repetition makes the left operand of all that it has read.  So
a compiled expression is as high as its longest run of left operands, up to a
constant factor.  A sum is as high as it is long, without a parenthesis in it, and
only the length of the formula bounds its height.
-/

namespace TournamentScoring.Formula

namespace Expression

/-- The calls that lie within each other when the whole expression is walked. -/
def height : Expression → Nat
  | number _ => 1
  | symbol _ => 1
  | negation operand => operand.height + 1
  | binary _ left right => max left.height right.height + 1

/-- The steps on one path, apart from those to a left operand. -/
def turns : Expression → Nat
  | number _ => 0
  | symbol _ => 0
  | negation operand => operand.turns + 1
  | binary _ left right => max left.turns (right.turns + 1)

/-- The steps from left operand to left operand, down from the root. -/
def spine : Expression → Nat
  | number _ => 0
  | symbol _ => 0
  | negation _ => 0
  | binary _ left _ => left.spine + 1

/-- The longest run of steps to left operands anywhere in the expression. -/
def leftRun : Expression → Nat
  | number _ => 0
  | symbol _ => 0
  | negation operand => operand.leftRun
  | binary _ left right => max (left.spine + 1) (max left.leftRun right.leftRun)

/-- The calls that lie within each other when the expression is evaluated.  A right
operand is only looked at once the left one has a value. -/
def evaluationDepth (symbols : SymbolTable) : Expression → Nat
  | number _ => 1
  | symbol _ => 1
  | negation operand => operand.evaluationDepth symbols + 1
  | binary _ left right =>
    match left.evaluate symbols with
    | .error _ => left.evaluationDepth symbols + 1
    | .ok _ =>
      max (left.evaluationDepth symbols) (right.evaluationDepth symbols) + 1

theorem height_pos (expression : Expression) : 0 < expression.height := by
  cases expression <;> exact Nat.succ_pos _

theorem evaluationDepth_le_height (symbols : SymbolTable)
    (expression : Expression) :
    expression.evaluationDepth symbols ≤ expression.height := by
  induction expression with
  | number value => exact Nat.le_refl _
  | symbol name => exact Nat.le_refl _
  | negation operand ih => exact Nat.succ_le_succ ih
  | binary operator left right ihLeft ihRight =>
    rw [evaluationDepth, height]
    split <;> omega

/-- An evaluation that ends with a value has walked the whole expression. -/
theorem evaluationDepth_eq_height {symbols : SymbolTable}
    {expression : Expression} {value : Float}
    (hvalue : expression.evaluate symbols = .ok value) :
    expression.evaluationDepth symbols = expression.height := by
  induction expression generalizing value with
  | number number => rfl
  | symbol name => rfl
  | negation operand ih =>
    rw [evaluate] at hvalue
    split at hvalue
    · rename_i operandValue hoperand
      rw [evaluationDepth, height, ih hoperand]
    · cases hvalue
  | binary operator left right ihLeft ihRight =>
    obtain ⟨leftValue, rightValue, hleft, hright, -⟩ :=
      evaluate_binary_eq_ok hvalue
    rw [evaluationDepth, height, hleft, ihLeft hleft, ihRight hright]

theorem spine_lt_height (expression : Expression) :
    expression.spine < expression.height := by
  induction expression with
  | number value => exact Nat.succ_pos _
  | symbol name => exact Nat.succ_pos _
  | negation operand ih => exact Nat.succ_pos _
  | binary operator left right ihLeft ihRight =>
    rw [spine, height]
    omega

theorem leftRun_lt_height (expression : Expression) :
    expression.leftRun < expression.height := by
  induction expression with
  | number value => exact Nat.succ_pos _
  | symbol name => exact Nat.succ_pos _
  | negation operand ih => exact Nat.lt_succ_of_lt ih
  | binary operator left right ihLeft ihRight =>
    have hspine := left.spine_lt_height
    rw [leftRun, height]
    omega

theorem spine_le_leftRun (expression : Expression) :
    expression.spine ≤ expression.leftRun := by
  cases expression with
  | number value => exact Nat.le_refl _
  | symbol name => exact Nat.le_refl _
  | negation operand => exact Nat.zero_le _
  | binary operator left right => exact Nat.le_max_left _ _

/-- Each turn starts a new run of left operands. -/
theorem height_le_of_leftRun_le {expression : Expression} {run : Nat}
    (hrun : expression.leftRun ≤ run) :
    expression.height ≤ expression.spine + 1 + expression.turns * (run + 1) := by
  induction expression with
  | number value => exact Nat.le_add_right _ _
  | symbol name => exact Nat.le_add_right _ _
  | negation operand ih =>
    have hspine := Nat.le_trans operand.spine_le_leftRun hrun
    have hoperand := ih hrun
    rw [height, spine, turns, Nat.succ_mul]
    omega
  | binary operator left right ihLeft ihRight =>
    obtain ⟨-, hruns⟩ := Nat.max_le.mp hrun
    obtain ⟨hleftRun, hrightRun⟩ := Nat.max_le.mp hruns
    have hleft := ihLeft hleftRun
    have hright := ihRight hrightRun
    have hspine := Nat.le_trans right.spine_le_leftRun hrightRun
    have hleftTurns : left.turns * (run + 1) ≤
        max left.turns (right.turns + 1) * (run + 1) :=
      Nat.mul_le_mul_right _ (Nat.le_max_left _ _)
    have hrightTurns : (right.turns + 1) * (run + 1) ≤
        max left.turns (right.turns + 1) * (run + 1) :=
      Nat.mul_le_mul_right _ (Nat.le_max_right _ _)
    rw [Nat.succ_mul] at hrightTurns
    rw [height, spine, turns]
    omega

theorem height_le_turns_mul_leftRun (expression : Expression) :
    expression.height ≤ (expression.turns + 1) * (expression.leftRun + 1) := by
  have hheight := height_le_of_leftRun_le (Nat.le_refl expression.leftRun)
  have hspine := expression.spine_le_leftRun
  rw [Nat.succ_mul]
  omega

end Expression

/-! ## What nesting bounds -/

/-- The turns of a phrase that leaves room for further parentheses and negations.
A repetition keeps the turns of what stands on its left. -/
def Phrase.TurnsWithin (room : Nat) : (phrase : Phrase) → phrase.Meaning → Prop
  | sum, tree => Expression.turns tree ≤ 2 * room + 2
  | addends, extend => ∀ left : Expression,
    (extend left).turns ≤ max left.turns (2 * room + 2)
  | product, tree => Expression.turns tree ≤ 2 * room + 1
  | factors, extend => ∀ left : Expression,
    (extend left).turns ≤ max left.turns (2 * room + 1)
  | unary, tree | atom, tree => Expression.turns tree ≤ 2 * room

/-- A group takes one level of the room and pays for two turns: one to a later term
and one to a later factor. -/
theorem Derivation.turnsWithin {phrase : Phrase} (derivation : Derivation phrase)
    {depth room : Nat} (hroom : depth + room = nestingLimit)
    (hfits : derivation.Fits depth) :
    phrase.TurnsWithin room derivation.tree := by
  induction derivation generalizing depth room with
  | sum first rest ihFirst ihRest =>
    obtain ⟨hfirst, hrest⟩ := fits_sum.mp hfits
    have hleft : first.tree.turns ≤ 2 * room + 1 := ihFirst hroom hfirst
    have hwhole := ihRest hroom hrest first.tree
    change (rest.tree first.tree).turns ≤ 2 * room + 2
    omega
  | noAddend =>
    intro left
    exact Nat.le_max_left _ _
  | addend operator next rest ihNext ihRest =>
    obtain ⟨-, hnext, hrest⟩ := fits_addend.mp hfits
    intro left
    have hright : next.tree.turns ≤ 2 * room + 1 := ihNext hroom hnext
    have hstep : (Expression.binary operator.operator left next.tree).turns =
        max left.turns (next.tree.turns + 1) := rfl
    have hwhole := ihRest hroom hrest
      (Expression.binary operator.operator left next.tree)
    change (rest.tree (Expression.binary operator.operator left next.tree)).turns ≤ _
    omega
  | product first rest ihFirst ihRest =>
    obtain ⟨hfirst, hrest⟩ := fits_product.mp hfits
    have hleft : first.tree.turns ≤ 2 * room := ihFirst hroom hfirst
    have hwhole := ihRest hroom hrest first.tree
    change (rest.tree first.tree).turns ≤ 2 * room + 1
    omega
  | noFactor =>
    intro left
    exact Nat.le_max_left _ _
  | factor operator next rest ihNext ihRest =>
    obtain ⟨-, hnext, hrest⟩ := fits_factor.mp hfits
    intro left
    have hright : next.tree.turns ≤ 2 * room := ihNext hroom hnext
    have hstep : (Expression.binary operator.operator left next.tree).turns =
        max left.turns (next.tree.turns + 1) := rfl
    have hwhole := ihRest hroom hrest
      (Expression.binary operator.operator left next.tree)
    change (rest.tree (Expression.binary operator.operator left next.tree)).turns ≤ _
    omega
  | negation operand ih =>
    have hoperand := (fits_negation.mp hfits).2
    obtain ⟨less, rfl⟩ : ∃ less, room = less + 1 :=
      ⟨room - 1, by have := hoperand.unary_le; omega⟩
    have hinner : operand.tree.turns ≤ 2 * less := ih (by omega) hoperand
    change operand.tree.turns + 1 ≤ 2 * (less + 1)
    omega
  | atom inner ih => exact ih hroom hfits
  | number value => exact Nat.zero_le _
  | identifier spelling => exact Nat.zero_le _
  | group inner ih =>
    have hgroup := (fits_group.mp hfits).2
    obtain ⟨less, rfl⟩ : ∃ less, room = less + 1 :=
      ⟨room - 1, by have := hgroup.sum_le; omega⟩
    have hinner : inner.tree.turns ≤ 2 * less + 2 := ih (by omega) hgroup
    exact hinner

/-! ## What length bounds -/

/-- The height of a phrase of some tokens. -/
def Phrase.HeightWithin (tokens : Nat) : (phrase : Phrase) → phrase.Meaning → Prop
  | addends, extend | factors, extend =>
    ∀ left : Expression, (extend left).height ≤ left.height + tokens
  | sum, tree | product, tree | unary, tree | atom, tree =>
    Expression.height tree ≤ tokens

theorem Derivation.heightWithin {phrase : Phrase} (derivation : Derivation phrase) :
    phrase.HeightWithin derivation.tokens.length derivation.tree := by
  induction derivation with
  | sum first rest ihFirst ihRest | product first rest ihFirst ihRest =>
    have hleft : first.tree.height ≤ first.tokens.length := ihFirst
    have hwhole := ihRest first.tree
    change (rest.tree first.tree).height ≤ (first.tokens ++ rest.tokens).length
    rw [List.length_append]
    omega
  | noAddend | noFactor =>
    intro left
    exact Nat.le_refl _
  | addend operator next rest ihNext ihRest
  | factor operator next rest ihNext ihRest =>
    intro left
    have hright : next.tree.height ≤ next.tokens.length := ihNext
    have hstep : (Expression.binary operator.operator left next.tree).height =
        max left.height next.tree.height + 1 := rfl
    have hwhole := ihRest (Expression.binary operator.operator left next.tree)
    change (rest.tree (Expression.binary operator.operator left next.tree)).height ≤ _
    rw [tokens, List.length_cons, List.length_append]
    omega
  | negation operand ih => exact Nat.succ_le_succ ih
  | atom inner ih => exact ih
  | number value => exact Nat.le_refl _
  | identifier spelling => exact Nat.le_refl _
  | group inner ih =>
    have hinner : inner.tree.height ≤ inner.tokens.length := ih
    change inner.tree.height ≤ (Token.openParen :: (inner.tokens ++ [Token.closeParen])).length
    rw [List.length_cons, List.length_append]
    omega

/-- An outcome of the lexer with at most so many tokens. -/
def HasTokensWithin (bound : Nat) : Except Malformation (List Token) → Prop
  | .error _ => True
  | .ok tokens => tokens.length ≤ bound

theorem HasTokensWithin.map_cons {outcome : Except Malformation (List Token)}
    {bound larger : Nat} (houtcome : HasTokensWithin bound outcome)
    (hbound : bound < larger) (token : Token) :
    HasTokensWithin larger (outcome.map fun tokens => token :: tokens) := by
  cases outcome with
  | error cause => trivial
  | ok tokens =>
    change tokens.length + 1 ≤ larger
    have htokens : tokens.length ≤ bound := houtcome
    omega

/-- Each token takes a character. -/
theorem hasTokensWithin_tokensFrom (position : Nat) (characters : List Char) :
    HasTokensWithin characters.length (tokensFrom position characters) := by
  fun_induction tokensFrom position characters with
  | case1 position => exact Nat.le_refl _
  | case2 position head rest hblank ih =>
    cases houtcome : tokensFrom (position + 1) rest with
    | error cause => trivial
    | ok tokens =>
      rw [houtcome] at ih
      exact Nat.le_succ_of_le ih
  | case3 position head rest hblank token hsymbol ih =>
    exact ih.map_cons (Nat.lt_succ_self _) token
  | case4 position head rest hblank hsymbol hnumber numeral cause hread => trivial
  | case5 position head rest hblank hsymbol hnumber numeral value hread ih =>
    exact ih.map_cons (Numeral.length_rest_scan_lt hnumber) _
  | case6 position head rest hblank hsymbol hnumber hname name ih =>
    have hshorter : (rest.dropWhile Text.isNameRest).length ≤ rest.length :=
      (List.dropWhile_sublist _).length_le
    exact ih.map_cons (Nat.lt_succ_of_le hshorter) _
  | case7 position head rest hblank hsymbol hnumber hname => trivial

/-- A formula compiles if it has tokens and they parse. -/
theorem compile_eq_ok_iff {source : String} {tree : Expression} :
    compile source = .ok tree ↔
      ∃ tokens, tokenize source = .ok tokens ∧ parse tokens = .ok tree := by
  rw [compile]
  cases tokenize source with
  | error cause => simp
  | ok tokens => simp

theorem height_le_of_compile {source : String} {tree : Expression}
    (hcompile : compile source = .ok tree) : tree.height ≤ source.length := by
  obtain ⟨tokens, htokens, hparse⟩ := compile_eq_ok_iff.mp hcompile
  obtain ⟨derivation, rfl, rfl, -⟩ := parse_eq_ok_iff.mp hparse
  have hheight : derivation.tree.height ≤ derivation.tokens.length :=
    derivation.heightWithin
  have hlength := hasTokensWithin_tokensFrom 0 source.toList
  rw [← tokenize, htokens, String.length_toList] at hlength
  exact Nat.le_trans hheight hlength

theorem turns_le_of_compile {source : String} {tree : Expression}
    (hcompile : compile source = .ok tree) : tree.turns ≤ 2 * nestingLimit + 2 := by
  obtain ⟨tokens, -, hparse⟩ := compile_eq_ok_iff.mp hcompile
  obtain ⟨derivation, -, rfl, hfits⟩ := parse_eq_ok_iff.mp hparse
  exact derivation.turnsWithin (Nat.zero_add _) hfits

/-! ## Long sums -/

/-- What follows the first term of a sum of one name. -/
def Derivation.repeated (spelling : String) : Nat → Derivation .addends
  | 0 => .noAddend
  | count + 1 =>
    .addend .add (.product (.atom (.identifier spelling)) .noFactor)
      (repeated spelling count)

/-- A name and the same name so many times more. -/
def Derivation.longSum (spelling : String) (count : Nat) : Derivation .sum :=
  .sum (.product (.atom (.identifier spelling)) .noFactor) (repeated spelling count)

namespace Derivation

theorem fits_repeated (spelling : String) (count : Nat) :
    (repeated spelling count).Fits 0 := by
  induction count with
  | zero => exact fits_noAddend
  | succ count ih =>
    exact fits_addend.mpr ⟨Nat.zero_le _, fits_product.mpr
      ⟨fits_identifier.mpr (Nat.zero_le _), fits_noFactor⟩, ih⟩

theorem height_repeated (spelling : String) (count : Nat) (left : Expression) :
    ((repeated spelling count).tree left).height = left.height + count := by
  induction count generalizing left with
  | zero => rfl
  | succ count ih =>
    have hpos := left.height_pos
    have hstep : (Expression.binary .add left (.symbol spelling)).height =
        max left.height 1 + 1 := rfl
    change ((repeated spelling count).tree
      (.binary .add left (.symbol spelling))).height = _
    rw [ih, hstep]
    omega

/-- Where the name stands for zero, so does the sum. -/
theorem evaluate_repeated {spelling : String} {symbols : SymbolTable}
    (hzero : symbols.get? spelling = some 0.0) (count : Nat) {left : Expression}
    (hleft : left.evaluate symbols = .ok 0.0) :
    ((repeated spelling count).tree left).evaluate symbols = .ok 0.0 := by
  induction count generalizing left with
  | zero => exact hleft
  | succ count ih =>
    refine ih ?_
    have hname : (Expression.symbol spelling).evaluate symbols = .ok 0.0 := by
      rw [Expression.evaluate, hzero]
    rw [SumOperator.operator, Expression.evaluate, hleft, tree, tree, tree, tree, hname]
    rfl

end Derivation

/-- The characters of a sum of one letter, from its first operator on. -/
def repeatedText : Nat → List Char
  | 0 => []
  | count + 1 => '+' :: 'a' :: repeatedText count

/-- The letter, and what a sum adds to it. -/
def longSumText (count : Nat) : List Char :=
  'a' :: repeatedText count

theorem tokensFrom_letter (position count : Nat) :
    tokensFrom position ('a' :: repeatedText count) =
      (tokensFrom (position + 1) (repeatedText count)).map
        fun tokens => .identifier "a" :: tokens := by
  have hends : (Lexeme.name 'a' [] rfl (List.forall_mem_nil _)).Ends
      (repeatedText count) := by
    cases count with
    | zero => exact Text.stops_nil
    | succ count => exact Text.stops_cons.mpr rfl
  exact tokensFrom_lexeme hends trivial position

theorem tokensFrom_repeatedText (position count : Nat) :
    tokensFrom position (repeatedText count) =
      .ok (Derivation.repeated "a" count).tokens := by
  induction count generalizing position with
  | zero => rw [repeatedText, tokensFrom]; rfl
  | succ count ih =>
    have hends : (Lexeme.symbol '+' .plus (by decide)).Ends ('a' :: repeatedText count) :=
      fun _ _ => rfl
    have hplus : tokensFrom position (repeatedText (count + 1)) =
        (tokensFrom (position + 1) ('a' :: repeatedText count)).map (.plus :: ·) :=
      tokensFrom_lexeme hends trivial position
    rw [hplus, tokensFrom_letter, ih]
    rfl

theorem compile_longSumText (count : Nat) :
    compile (String.ofList (longSumText count)) =
      .ok (Derivation.longSum "a" count).tree := by
  have htokens : tokenize (String.ofList (longSumText count)) =
      .ok (Derivation.longSum "a" count).tokens := by
    rw [tokenize, String.toList_ofList, longSumText, tokensFrom_letter,
      tokensFrom_repeatedText]
    rfl
  have hfits : (Derivation.longSum "a" count).Fits 0 :=
    Derivation.fits_sum.mpr ⟨Derivation.fits_product.mpr
      ⟨Derivation.fits_identifier.mpr (Nat.zero_le _), Derivation.fits_noFactor⟩,
      Derivation.fits_repeated "a" count⟩
  exact compile_eq_ok_iff.mpr ⟨_, htokens, parse_eq_ok_iff.mpr ⟨_, rfl, rfl, hfits⟩⟩

theorem mem_repeatedText {count : Nat} {character : Char}
    (hmem : character ∈ repeatedText count) : character = '+' ∨ character = 'a' := by
  induction count with
  | zero => cases hmem
  | succ count ih =>
    rcases List.mem_cons.mp hmem with hplus | hmem
    · exact Or.inl hplus
    · rcases List.mem_cons.mp hmem with hletter | hmem
      · exact Or.inr hletter
      · exact ih hmem

/-! ## The recursion of a walk -/

/-- Of the steps to right operands and under negations no path of a compiled formula
has more than 514.  So the height of the expression, and with it the depth of a walk,
is bounded where the runs of left operands are: it is more than the longest run and
at most 515 times what the run and its last operand take. -/
theorem compiled_height_within_left_runs {source : String} {tree : Expression}
    (hcompile : compile source = .ok tree) :
    tree.turns ≤ 514 ∧ tree.leftRun < tree.height ∧
      tree.height ≤ 515 * (tree.leftRun + 1) ∧ tree.height ≤ source.length ∧
      ∀ symbols, tree.evaluationDepth symbols ≤ tree.height := by
  have hturns : tree.turns ≤ 514 := turns_le_of_compile hcompile
  have hheight : tree.height ≤ 515 * (tree.leftRun + 1) :=
    Nat.le_trans tree.height_le_turns_mul_leftRun
      (Nat.mul_le_mul_right _ (Nat.succ_le_succ hturns))
  exact ⟨hturns, tree.leftRun_lt_height, hheight, height_le_of_compile hcompile,
    tree.evaluationDepth_le_height⟩

/-- The sum of a name three times. -/
def threeTerms : Expression :=
  .binary .add (.binary .add (.symbol "a") (.symbol "a")) (.symbol "a")

/-- The only turn is the step to a term on the right; two steps lead to the first. -/
theorem height_of_threeTerms :
    compile "a+a+a" = .ok threeTerms ∧
      (threeTerms.turns = 1 ∧ threeTerms.leftRun = 2 ∧ threeTerms.height = 3) ∧
      threeTerms.turns ≤ 514 ∧ threeTerms.leftRun < threeTerms.height ∧
      threeTerms.height ≤ 515 * (threeTerms.leftRun + 1) ∧
      threeTerms.height ≤ "a+a+a".length := by
  have hcompile : compile "a+a+a" = .ok threeTerms := compile_longSumText 2
  obtain ⟨hturns, hrun, hfactor, hheight, -⟩ := compiled_height_within_left_runs hcompile
  exact ⟨hcompile, ⟨rfl, rfl, rfl⟩, hturns, hrun, hfactor, hheight⟩

/-- Without any parenthesis or negation, formulas compile to expressions of any height,
and evaluating them successfully goes as deep. -/
theorem exists_compiled_of_any_height (bound : Nat) :
    ∃ (source : String) (tree : Expression) (symbols : SymbolTable),
      compile source = .ok tree ∧
        (∀ character ∈ source.toList, character ≠ '(' ∧ character ≠ '-') ∧
        tree.evaluate symbols = .ok 0.0 ∧
        tree.evaluationDepth symbols = tree.height ∧ bound < tree.height := by
  let symbols : SymbolTable := KeyedTable.empty.insert "a" 0.0
  have hzero : symbols.get? "a" = some 0.0 := by
    rw [KeyedTable.get?_insert, if_pos rfl]
  have hname : (Expression.symbol "a").evaluate symbols = .ok 0.0 := by
    rw [Expression.evaluate, hzero]
  have hvalue : (Derivation.longSum "a" bound).tree.evaluate symbols = .ok 0.0 :=
    Derivation.evaluate_repeated hzero bound hname
  have hheight : (Derivation.longSum "a" bound).tree.height = 1 + bound :=
    Derivation.height_repeated "a" bound (.symbol "a")
  refine ⟨String.ofList (longSumText bound), _, symbols, compile_longSumText bound,
    ?_, hvalue, Expression.evaluationDepth_eq_height hvalue, by omega⟩
  intro character hmem
  rw [String.toList_ofList] at hmem
  rcases List.mem_cons.mp hmem with rfl | hmem
  · decide
  · rcases mem_repeatedText hmem with rfl | rfl <;> decide

/-- No number bounds the height of every compiled formula, or the depth to which
evaluating it goes. -/
theorem compiled_height_unbounded :
    (¬∃ bound : Nat, ∀ (source : String) (tree : Expression),
        compile source = .ok tree → tree.height ≤ bound) ∧
      ¬∃ bound : Nat, ∀ (source : String) (tree : Expression) (symbols : SymbolTable),
        compile source = .ok tree → tree.evaluationDepth symbols ≤ bound := by
  constructor
  · rintro ⟨bound, hbound⟩
    obtain ⟨source, tree, symbols, hcompile, -, -, -, hheight⟩ :=
      exists_compiled_of_any_height bound
    exact absurd (hbound source tree hcompile) (by omega)
  · rintro ⟨bound, hbound⟩
    obtain ⟨source, tree, symbols, hcompile, -, -, hdepth, hheight⟩ :=
      exists_compiled_of_any_height bound
    exact absurd (hbound source tree symbols hcompile) (by omega)

end TournamentScoring.Formula
