import TournamentScoring.Formula.Parser
import TournamentScoring.Proofs.Formula.Grammar

/-!
# The parser accepts exactly its grammar

Completeness follows the derivation: what a phrase adds to the state depends on
nothing but the level that it starts on.  Soundness follows the tokens from the
end: what the parser did after a state says what the state still demanded.
Both count nesting in one way, so the limit is the same on both sides.
-/

namespace TournamentScoring.Formula

/-! ## One step -/

/-- The parentheses and negations of the levels outside the current one. -/
def enclosing : List Level → Nat
  | [] => 0
  | level :: outer => level.negations + 1 + enclosing outer

theorem foldl_nesting (outer : List Level) (count : Nat) :
    outer.foldl (fun count level => count + level.negations + 1) count =
      count + enclosing outer := by
  induction outer generalizing count with
  | nil => rfl
  | cons level outer ih =>
    rw [List.foldl_cons, ih, enclosing]
    omega

theorem nesting_eq (level : Level) (outer : List Level) :
    Progress.nesting level outer = level.negations + enclosing outer :=
  foldl_nesting outer level.negations

/-- A new group lies one deeper than its parenthesis. -/
theorem enclosing_cons (level : Level) (outer : List Level) :
    enclosing (level :: outer) = Progress.nesting level outer + 1 := by
  rw [nesting_eq, enclosing]
  omega

/-- It is the same to negate first or last. -/
theorem negate_negation (count : Nat) (operand : Expression) :
    Level.negate count (.negation operand) =
      .negation (Level.negate count operand) := by
  induction count with
  | zero => rfl
  | succ count ih => rw [Level.negate, ih, Level.negate]

/-- The level with one more negation. -/
def Level.negated (level : Level) : Level where
  sum := level.sum
  product := level.product
  negations := level.negations + 1

theorem Level.withOperand_negated (level : Level) (operand : Expression) :
    level.negated.withOperand operand =
      level.withOperand (.negation operand) := by
  rw [withOperand, withOperand, negate_negation]
  rfl

namespace Progress

theorem withOperand_negated (level : Level) (outer : List Level)
    (operand : Expression) :
    withOperand level.negated outer operand =
      withOperand level outer (.negation operand) := by
  rw [withOperand, withOperand, Level.withOperand_negated]
  rfl

theorem nesting_negated (level : Level) (outer : List Level) :
    nesting level.negated outer = nesting level outer + 1 := by
  have hnegations : level.negated.negations = level.negations + 1 := rfl
  rw [nesting_eq, nesting_eq, hnegations]
  omega

/-- What one token can do to a state. -/
inductive Step : Progress → Token → Progress → Prop
  | number (level : Level) (outer : List Level) (value : Float) :
      Step (awaiting level outer) (.number value)
        (withOperand level outer (.number value))
  | identifier (level : Level) (outer : List Level) (spelling : String) :
      Step (awaiting level outer) (.identifier spelling)
        (withOperand level outer (.symbol spelling))
  | negation {level : Level} {outer : List Level}
      (hnesting : nesting level outer < nestingLimit) :
      Step (awaiting level outer) .minus (awaiting level.negated outer)
  | opening {level : Level} {outer : List Level}
      (hnesting : nesting level outer < nestingLimit) :
      Step (awaiting level outer) .openParen
        (awaiting Level.start (level :: outer))
  | multiplication (sum : Option Half) (product : Expression)
      (outer : List Level) (operator : ProductOperator) :
      Step (complete sum product outer) operator.token
        (awaiting ⟨sum, some ⟨product, operator.operator⟩, 0⟩ outer)
  | addition (sum : Option Half) (product : Expression) (outer : List Level)
      (operator : SumOperator) :
      Step (complete sum product outer) operator.token
        (awaiting ⟨some ⟨Half.complete sum product, operator.operator⟩,
          none, 0⟩ outer)
  | closing (sum : Option Half) (product : Expression) (level : Level)
      (outer : List Level) :
      Step (complete sum product (level :: outer)) .closeParen
        (withOperand level outer (Half.complete sum product))

theorem Step.read_eq {progress next : Progress} {token : Token}
    (hstep : Step progress token next) : progress.read token = .ok next := by
  cases hstep with
  | number level outer value => rfl
  | identifier level outer spelling => rfl
  | negation hnesting => exact if_pos hnesting
  | opening hnesting => exact if_pos hnesting
  | multiplication sum product outer operator => cases operator <;> rfl
  | addition sum product outer operator => cases operator <;> rfl
  | closing sum product level outer => rfl

theorem Step.of_read {progress next : Progress} {token : Token}
    (hread : progress.read token = .ok next) : Step progress token next := by
  cases progress with
  | awaiting level outer =>
    cases token with
    | number value =>
      obtain rfl := Except.ok.inj hread
      exact .number level outer value
    | identifier spelling =>
      obtain rfl := Except.ok.inj hread
      exact .identifier level outer spelling
    | minus =>
      by_cases hnesting : nesting level outer < nestingLimit
      · obtain rfl := Except.ok.inj ((if_pos hnesting).symm.trans hread)
        exact .negation hnesting
      · cases (if_neg hnesting).symm.trans hread
    | openParen =>
      by_cases hnesting : nesting level outer < nestingLimit
      · obtain rfl := Except.ok.inj ((if_pos hnesting).symm.trans hread)
        exact .opening hnesting
      · cases (if_neg hnesting).symm.trans hread
    | plus | star | slash | closeParen => cases hread
  | complete sum product outer =>
    cases token with
    | star =>
      obtain rfl := Except.ok.inj hread
      exact .multiplication sum product outer .multiply
    | slash =>
      obtain rfl := Except.ok.inj hread
      exact .multiplication sum product outer .divide
    | plus =>
      obtain rfl := Except.ok.inj hread
      exact .addition sum product outer .add
    | minus =>
      obtain rfl := Except.ok.inj hread
      exact .addition sum product outer .subtract
    | closeParen =>
      cases outer with
      | nil => cases hread
      | cons level outer =>
        obtain rfl := Except.ok.inj hread
        exact .closing sum product level outer
    | number value | identifier spelling | openParen =>
      cases outer <;> cases hread

theorem Step.readAll_cons {progress next : Progress} {token : Token}
    (hstep : Step progress token next) (tokens : List Token) :
    progress.readAll (token :: tokens) = next.readAll tokens := by
  rw [readAll, hstep.read_eq]

theorem readAll_cons_eq_ok {progress last : Progress} {token : Token}
    {tokens : List Token}
    (hread : progress.readAll (token :: tokens) = .ok last) :
    ∃ next, Step progress token next ∧ next.readAll tokens = .ok last := by
  rw [readAll] at hread
  cases hnext : progress.read token with
  | error cause =>
    rw [hnext] at hread
    cases hread
  | ok next =>
    rw [hnext] at hread
    exact ⟨next, Step.of_read hnext, hread⟩

end Progress

/-- A list is accepted where its tokens lead to a state that may be the last. -/
theorem parse_eq_ok_iff_readAll {tokens : List Token} {tree : Expression} :
    parse tokens = .ok tree ↔
      ∃ last, Progress.start.readAll tokens = .ok last ∧
        last.finish = .ok tree := by
  cases tokens with
  | nil =>
    constructor
    · intro hparse
      cases hparse
    · rintro ⟨last, hread, hfinish⟩
      obtain rfl := Except.ok.inj hread
      cases hfinish
  | cons token tokens =>
    rw [parse, if_neg (by simp)]
    cases Progress.start.readAll (token :: tokens) with
    | error cause => simp
    | ok last => simp

/-! ## Nesting -/

namespace Derivation

/-- No token of a derivation that stands under `depth` parentheses and negations
lies deeper than the limit. -/
def Fits {phrase : Phrase} (derivation : Derivation phrase) (depth : Nat) :
    Prop :=
  ∀ place ∈ derivation.places depth, place.2 ≤ nestingLimit

variable {depth : Nat}

theorem fits_sum {first : Derivation .product} {rest : Derivation .addends} :
    (sum first rest).Fits depth ↔ first.Fits depth ∧ rest.Fits depth :=
  List.forall_mem_append

theorem fits_product {first : Derivation .unary} {rest : Derivation .factors} :
    (product first rest).Fits depth ↔ first.Fits depth ∧ rest.Fits depth :=
  List.forall_mem_append

theorem fits_noAddend : noAddend.Fits depth := by
  simp [Fits, places]

theorem fits_noFactor : noFactor.Fits depth := by
  simp [Fits, places]

theorem fits_addend {operator : SumOperator} {next : Derivation .product}
    {rest : Derivation .addends} :
    (addend operator next rest).Fits depth ↔
      depth ≤ nestingLimit ∧ next.Fits depth ∧ rest.Fits depth := by
  simp only [Fits, places, List.forall_mem_cons, List.forall_mem_append]

theorem fits_factor {operator : ProductOperator} {next : Derivation .unary}
    {rest : Derivation .factors} :
    (factor operator next rest).Fits depth ↔
      depth ≤ nestingLimit ∧ next.Fits depth ∧ rest.Fits depth := by
  simp only [Fits, places, List.forall_mem_cons, List.forall_mem_append]

theorem fits_negation {operand : Derivation .unary} :
    (negation operand).Fits depth ↔
      depth ≤ nestingLimit ∧ operand.Fits (depth + 1) := by
  simp only [Fits, places, List.forall_mem_cons]

theorem fits_number {value : Float} :
    (number value).Fits depth ↔ depth ≤ nestingLimit := by
  simp only [Fits, places, List.forall_mem_singleton]

theorem fits_identifier {spelling : String} :
    (identifier spelling).Fits depth ↔ depth ≤ nestingLimit := by
  simp only [Fits, places, List.forall_mem_singleton]

theorem fits_group {inner : Derivation .sum} :
    (group inner).Fits depth ↔
      depth ≤ nestingLimit ∧ inner.Fits (depth + 1) := by
  simp only [Fits, places, List.forall_mem_cons, List.forall_mem_append]
  constructor
  · rintro ⟨hopen, hinner, -⟩
    exact ⟨hopen, hinner⟩
  · rintro ⟨hopen, hinner⟩
    exact ⟨hopen, hinner, hopen, List.forall_mem_nil _⟩

/-- An operand begins at the depth of its phrase. -/
theorem Fits.unary_le {derivation : Derivation .unary}
    (hfits : derivation.Fits depth) : depth ≤ nestingLimit := by
  cases derivation with
  | negation operand => exact (fits_negation.mp hfits).1
  | atom inner =>
    cases inner with
    | number value => exact fits_number.mp hfits
    | identifier spelling => exact fits_identifier.mp hfits
    | group inner => exact (fits_group.mp hfits).1

theorem Fits.sum_le {derivation : Derivation .sum}
    (hfits : derivation.Fits depth) : depth ≤ nestingLimit := by
  cases derivation with
  | sum first rest =>
    cases first with
    | product first factors =>
      exact (fits_product.mp (fits_sum.mp hfits).1).1.unary_le

end Derivation

/-! ## Completeness -/

/-- How the parser reads a derivation of each phrase, whatever follows it. -/
def IsRead : (phrase : Phrase) → Derivation phrase → Prop
  | .unary, derivation | .atom, derivation =>
    ∀ (level : Level) (outer : List Level) (after : List Token),
      derivation.Fits (Progress.nesting level outer) →
        (Progress.awaiting level outer).readAll (derivation.tokens ++ after) =
          (Progress.withOperand level outer derivation.tree).readAll after
  | .product, derivation =>
    ∀ (sum : Option Half) (outer : List Level) (after : List Token),
      derivation.Fits (enclosing outer) →
        (Progress.awaiting ⟨sum, none, 0⟩ outer).readAll
            (derivation.tokens ++ after) =
          (Progress.complete sum derivation.tree outer).readAll after
  | .factors, derivation =>
    ∀ (sum : Option Half) (product : Expression) (outer : List Level)
      (after : List Token), derivation.Fits (enclosing outer) →
        (Progress.complete sum product outer).readAll
            (derivation.tokens ++ after) =
          (Progress.complete sum (derivation.tree product) outer).readAll after
  | .sum, derivation =>
    ∀ (outer : List Level) (after : List Token),
      derivation.Fits (enclosing outer) →
        ∃ sum product, Half.complete sum product = derivation.tree ∧
          (Progress.awaiting Level.start outer).readAll
              (derivation.tokens ++ after) =
            (Progress.complete sum product outer).readAll after
  | .addends, derivation =>
    ∀ (sum : Option Half) (product : Expression) (outer : List Level)
      (after : List Token), derivation.Fits (enclosing outer) →
        ∃ sum' product', Half.complete sum' product' =
            derivation.tree (Half.complete sum product) ∧
          (Progress.complete sum product outer).readAll
              (derivation.tokens ++ after) =
            (Progress.complete sum' product' outer).readAll after

open Progress in
/-- The induction is on the derivation, one case for each rule. -/
theorem Derivation.isRead {phrase : Phrase} (derivation : Derivation phrase) :
    IsRead phrase derivation := by
  induction derivation with
  | sum first rest ihFirst ihRest =>
    intro outer after hfits
    obtain ⟨hfirst, hrest⟩ := fits_sum.mp hfits
    obtain ⟨sum, product, htree, hread⟩ :=
      ihRest none first.tree outer after hrest
    refine ⟨sum, product, htree, ?_⟩
    rw [tokens, List.append_assoc, ← hread]
    exact ihFirst none outer (rest.tokens ++ after) hfirst
  | noAddend =>
    intro sum product outer after _
    exact ⟨sum, product, rfl, rfl⟩
  | addend operator next rest ihNext ihRest =>
    intro sum product outer after hfits
    obtain ⟨-, hnext, hrest⟩ := fits_addend.mp hfits
    obtain ⟨sum', product', htree, hread⟩ := ihRest
      (some ⟨Half.complete sum product, operator.operator⟩) next.tree outer
      after hrest
    refine ⟨sum', product', htree, ?_⟩
    rw [tokens, List.cons_append, List.append_assoc,
      (Step.addition sum product outer operator).readAll_cons, ← hread]
    exact ihNext _ outer (rest.tokens ++ after) hnext
  | product first rest ihFirst ihRest =>
    intro sum outer after hfits
    obtain ⟨hfirst, hrest⟩ := fits_product.mp hfits
    rw [tokens, List.append_assoc]
    rw [ihFirst ⟨sum, none, 0⟩ outer (rest.tokens ++ after)
      (by rwa [nesting_eq, Nat.zero_add])]
    exact ihRest sum first.tree outer after hrest
  | noFactor =>
    intro sum product outer after _
    rfl
  | factor operator next rest ihNext ihRest =>
    intro sum product outer after hfits
    obtain ⟨-, hnext, hrest⟩ := fits_factor.mp hfits
    rw [tokens, List.cons_append, List.append_assoc,
      (Step.multiplication sum product outer operator).readAll_cons,
      ihNext ⟨sum, some ⟨product, operator.operator⟩, 0⟩ outer
        (rest.tokens ++ after) (by rwa [nesting_eq, Nat.zero_add])]
    exact ihRest sum _ outer after hrest
  | negation operand ih =>
    intro level outer after hfits
    have hoperand := (fits_negation.mp hfits).2
    have hnesting : nesting level outer < nestingLimit := hoperand.unary_le
    rw [← nesting_negated] at hoperand
    rw [tokens, List.cons_append, (Step.negation hnesting).readAll_cons,
      ih level.negated outer after hoperand, withOperand_negated]
    rfl
  | atom inner ih => exact ih
  | number value =>
    intro level outer after _
    exact (Step.number level outer value).readAll_cons after
  | identifier spelling =>
    intro level outer after _
    exact (Step.identifier level outer spelling).readAll_cons after
  | group inner ih =>
    intro level outer after hfits
    have hinner := (fits_group.mp hfits).2
    have hnesting : nesting level outer < nestingLimit := hinner.sum_le
    rw [← enclosing_cons] at hinner
    obtain ⟨sum, product, htree, hread⟩ :=
      ih (level :: outer) (.closeParen :: after) hinner
    rw [tokens, List.cons_append, List.append_assoc, List.singleton_append,
      (Step.opening hnesting).readAll_cons, hread,
      (Step.closing sum product level outer).readAll_cons, htree]
    rfl

/-! ## Soundness -/

/-- How deep the next token of a state lies. -/
def Progress.depth : Progress → Nat
  | awaiting level outer => nesting level outer
  | complete _ _ outer => enclosing outer

theorem enclosing_le_nesting (level : Level) (outer : List Level) :
    enclosing outer ≤ Progress.nesting level outer := by
  rw [nesting_eq]
  exact Nat.le_add_left _ _

open Progress in
theorem Progress.Step.depth_le {progress next : Progress} {token : Token}
    (hstep : Step progress token next) (hdepth : progress.depth ≤ nestingLimit) :
    next.depth ≤ nestingLimit := by
  cases hstep with
  | number level outer value | identifier level outer spelling =>
    exact Nat.le_trans (enclosing_le_nesting level outer) hdepth
  | negation hnesting =>
    rw [depth, nesting_negated]
    exact hnesting
  | @opening level outer hnesting =>
    have hstart : Level.start.negations = 0 := rfl
    rw [depth, nesting_eq, hstart, Nat.zero_add, enclosing_cons]
    exact hnesting
  | multiplication sum product outer operator
  | addition sum product outer operator =>
    rw [depth, nesting_eq, Nat.zero_add]
    exact hdepth
  | closing sum product level outer =>
    have hle : enclosing outer ≤ enclosing (level :: outer) :=
      Nat.le_add_left _ _
    exact Nat.le_trans hle hdepth

/-- The tokens that continue a product, and then its sum, up to where `closes`
takes over. -/
def Continues (closes : Expression → List Token → Prop) (depth : Nat)
    (sum : Option Half) (product : Expression) (tokens : List Token) : Prop :=
  ∃ (factors : Derivation .factors) (addends : Derivation .addends)
    (after : List Token),
    tokens = factors.tokens ++ (addends.tokens ++ after) ∧
      factors.Fits depth ∧ addends.Fits depth ∧
      closes (addends.tree (Half.complete sum (factors.tree product))) after

/-- The tokens that close the outer levels after a group with this expression,
where the whole is `result`. -/
def Closes (result : Expression) :
    List Level → Expression → List Token → Prop
  | [], tree, tokens => tokens = [] ∧ tree = result
  | level :: outer, tree, tokens =>
    ∃ after, tokens = .closeParen :: after ∧
      Continues (Closes result outer) (enclosing outer) level.sum
        (level.withOperand tree) after

/-- The tokens that lead from a state to `result` by the grammar. -/
def Demands (result : Expression) : Progress → List Token → Prop
  | .awaiting level outer, tokens =>
    ∃ (operand : Derivation .unary) (after : List Token),
      tokens = operand.tokens ++ after ∧
        operand.Fits (Progress.nesting level outer) ∧
        Continues (Closes result outer) (enclosing outer) level.sum
          (level.withOperand operand.tree) after
  | .complete sum product outer, tokens =>
    Continues (Closes result outer) (enclosing outer) sum product tokens

/-- Before a token stands everything that the state after it demands. -/
theorem Progress.Step.demands {result : Expression}
    {progress next : Progress} {token : Token} {tokens : List Token}
    (hstep : Step progress token next) (hdepth : progress.depth ≤ nestingLimit)
    (hdemands : Demands result next tokens) :
    Demands result progress (token :: tokens) := by
  cases hstep with
  | number level outer value =>
    exact ⟨.atom (.number value), tokens, rfl,
      Derivation.fits_number.mpr hdepth, hdemands⟩
  | identifier level outer spelling =>
    exact ⟨.atom (.identifier spelling), tokens, rfl,
      Derivation.fits_identifier.mpr hdepth, hdemands⟩
  | @negation level outer hnesting =>
    obtain ⟨operand, after, rfl, hfits, hafter⟩ := hdemands
    rw [nesting_negated] at hfits
    rw [Level.withOperand_negated] at hafter
    exact ⟨.negation operand, after, rfl,
      Derivation.fits_negation.mpr ⟨hdepth, hfits⟩, hafter⟩
  | @opening level outer hnesting =>
    obtain ⟨operand, _, rfl, hoperand, factors, addends, _, rfl, hfactors,
      haddends, after, rfl, hafter⟩ := hdemands
    have hstart : nesting Level.start (level :: outer) =
        enclosing (level :: outer) := by
      rw [nesting_eq]
      exact Nat.zero_add _
    rw [hstart, enclosing_cons] at hoperand
    rw [enclosing_cons] at hfactors haddends
    refine ⟨.atom (.group (.sum (.product operand factors) addends)), after,
      ?_, ?_, hafter⟩
    · simp [Derivation.tokens]
    · exact Derivation.fits_group.mpr ⟨hdepth, Derivation.fits_sum.mpr
        ⟨Derivation.fits_product.mpr ⟨hoperand, hfactors⟩, haddends⟩⟩
  | multiplication sum product outer operator =>
    obtain ⟨operand, _, rfl, hoperand, factors, addends, after, rfl, hfactors,
      haddends, hafter⟩ := hdemands
    rw [nesting_eq, Nat.zero_add] at hoperand
    refine ⟨.factor operator operand factors, addends, after, ?_, ?_, haddends,
      hafter⟩
    · simp [Derivation.tokens]
    · exact Derivation.fits_factor.mpr ⟨hdepth, hoperand, hfactors⟩
  | addition sum product outer operator =>
    obtain ⟨operand, _, rfl, hoperand, factors, addends, after, rfl, hfactors,
      haddends, hafter⟩ := hdemands
    rw [nesting_eq, Nat.zero_add] at hoperand
    refine ⟨.noFactor, .addend operator (.product operand factors) addends,
      after, ?_, Derivation.fits_noFactor, ?_, hafter⟩
    · simp [Derivation.tokens]
    · exact Derivation.fits_addend.mpr ⟨hdepth,
        Derivation.fits_product.mpr ⟨hoperand, hfactors⟩, haddends⟩
  | closing sum product level outer =>
    exact ⟨.noFactor, .noAddend, .closeParen :: tokens, rfl,
      Derivation.fits_noFactor, Derivation.fits_noAddend, tokens, rfl, hdemands⟩

/-- Where the tokens may end, nothing is demanded any more. -/
theorem Progress.demands_nil_of_finish {result : Expression} {last : Progress}
    (hfinish : last.finish = .ok result) : Demands result last [] := by
  cases last with
  | awaiting level outer => cases hfinish
  | complete sum product outer =>
    cases outer with
    | nil =>
      exact ⟨.noFactor, .noAddend, [], rfl, Derivation.fits_noFactor,
        Derivation.fits_noAddend, rfl, Except.ok.inj hfinish⟩
    | cons level outer => cases hfinish

theorem Progress.demands_of_readAll {result : Expression}
    {progress last : Progress} {tokens : List Token}
    (hread : progress.readAll tokens = .ok last)
    (hfinish : last.finish = .ok result)
    (hdepth : progress.depth ≤ nestingLimit) :
    Demands result progress tokens := by
  induction tokens generalizing progress with
  | nil =>
    obtain rfl := Except.ok.inj hread
    exact demands_nil_of_finish hfinish
  | cons token tokens ih =>
    obtain ⟨next, hstep, hnext⟩ := readAll_cons_eq_ok hread
    exact hstep.demands hdepth (ih hnext (hstep.depth_le hdepth))

/-- The parser accepts the derivations that fit, with their trees. -/
theorem parse_eq_ok_iff {tokens : List Token} {tree : Expression} :
    parse tokens = .ok tree ↔
      ∃ derivation : Derivation .sum, derivation.tokens = tokens ∧
        derivation.tree = tree ∧ derivation.Fits 0 := by
  rw [parse_eq_ok_iff_readAll]
  constructor
  · rintro ⟨last, hread, hfinish⟩
    obtain ⟨operand, _, rfl, hoperand, factors, addends, _, rfl, hfactors,
      haddends, rfl, htree⟩ := Progress.demands_of_readAll hread hfinish
        (Nat.zero_le nestingLimit)
    refine ⟨.sum (.product operand factors) addends, ?_, htree, ?_⟩
    · simp [Derivation.tokens]
    · exact Derivation.fits_sum.mpr
        ⟨Derivation.fits_product.mpr ⟨hoperand, hfactors⟩, haddends⟩
  · rintro ⟨derivation, rfl, rfl, hfits⟩
    obtain ⟨sum, product, htree, hread⟩ := derivation.isRead [] [] hfits
    rw [List.append_nil] at hread
    refine ⟨.complete sum product [], hread, ?_⟩
    rw [Progress.finish, htree]

/-- The names of an expression are the identifiers of the tokens that spell it. -/
theorem identifier_mem_iff_of_parse {tokens : List Token} {tree : Expression}
    (hparse : parse tokens = .ok tree) {name : String} :
    Token.identifier name ∈ tokens ↔ name ∈ tree.names := by
  obtain ⟨derivation, rfl, rfl, -⟩ := parse_eq_ok_iff.mp hparse
  have hoperands : derivation.tree.operands = derivation.tokens.filter Token.isOperand :=
    derivation.holdsOperands
  rw [← Expression.identifier_mem_operands_iff, hoperands, List.mem_filter]
  exact (and_iff_left rfl).symm

/-! ## Side by side -/

/-- A list of tokens and more of them, each after a binary operator. -/
def sideBySide (first : List Token)
    (rest : List (BinaryOperator × List Token)) : List Token :=
  first ++ rest.flatMap fun piece => piece.1.token :: piece.2

/-- Every binary operator may follow a complete product. -/
theorem Progress.exists_step_token (sum : Option Half) (product : Expression)
    (outer : List Level) (operator : BinaryOperator) :
    ∃ sum' product', Step (complete sum product outer) operator.token
      (awaiting ⟨sum', product', 0⟩ outer) := by
  cases operator with
  | add => exact ⟨_, _, Step.addition sum product outer .add⟩
  | subtract => exact ⟨_, _, Step.addition sum product outer .subtract⟩
  | multiply => exact ⟨_, _, Step.multiplication sum product outer .multiply⟩
  | divide => exact ⟨_, _, Step.multiplication sum product outer .divide⟩

/-- Whatever waits for it, a sum that fits leads to a complete product. -/
theorem Derivation.exists_readAll_eq (derivation : Derivation .sum)
    (sum product : Option Half) (outer : List Level) (after : List Token)
    (hfits : derivation.Fits (enclosing outer)) :
    ∃ sum' product', (Progress.awaiting ⟨sum, product, 0⟩ outer).readAll
        (derivation.tokens ++ after) =
      (Progress.complete sum' product' outer).readAll after := by
  cases derivation with
  | sum first addends =>
    cases first with
    | product operand factors =>
      obtain ⟨hfirst, haddends⟩ := fits_sum.mp hfits
      obtain ⟨hoperand, hfactors⟩ := fits_product.mp hfirst
      rw [tokens, tokens, List.append_assoc, List.append_assoc,
        operand.isRead ⟨sum, product, 0⟩ outer _
          (by rwa [nesting_eq, Nat.zero_add]),
        Progress.withOperand, factors.isRead _ _ outer _ hfactors]
      obtain ⟨sum', product', -, hread⟩ :=
        addends.isRead _ _ outer after haddends
      exact ⟨sum', product', hread⟩

theorem exists_readAll_flatMap_eq_ok
    (rest : List (BinaryOperator × List Token))
    (hrest : ∀ piece ∈ rest, ∃ tree, parse piece.2 = .ok tree)
    (sum : Option Half) (product : Expression) :
    ∃ sum' product', (Progress.complete sum product []).readAll
        (rest.flatMap fun piece => piece.1.token :: piece.2) =
      .ok (Progress.complete sum' product' []) := by
  induction rest generalizing sum product with
  | nil => exact ⟨sum, product, rfl⟩
  | cons piece rest ih =>
    obtain ⟨hpiece, hrest⟩ := List.forall_mem_cons.mp hrest
    obtain ⟨tree, hparse⟩ := hpiece
    obtain ⟨derivation, htokens, -, hfits⟩ := parse_eq_ok_iff.mp hparse
    obtain ⟨waiting, factor, hstep⟩ :=
      Progress.exists_step_token sum product [] piece.1
    obtain ⟨sum', product', hread⟩ :=
      derivation.exists_readAll_eq waiting factor [] _ hfits
    rw [List.flatMap_cons, List.cons_append, hstep.readAll_cons, ← htokens,
      hread]
    exact ih hrest sum' product'

/-- Any number of accepted lists may stand side by side. -/
theorem exists_parse_sideBySide_eq_ok {first : List Token}
    {rest : List (BinaryOperator × List Token)}
    (hfirst : ∃ tree, parse first = .ok tree)
    (hrest : ∀ piece ∈ rest, ∃ tree, parse piece.2 = .ok tree) :
    ∃ tree, parse (sideBySide first rest) = .ok tree := by
  obtain ⟨tree, hparse⟩ := hfirst
  obtain ⟨derivation, rfl, -, hfits⟩ := parse_eq_ok_iff.mp hparse
  obtain ⟨sum, product, hread⟩ :=
    derivation.exists_readAll_eq none none [] _ hfits
  obtain ⟨sum', product', hlast⟩ :=
    exists_readAll_flatMap_eq_ok rest hrest sum product
  exact ⟨Half.complete sum' product', parse_eq_ok_iff_readAll.mpr
    ⟨_, hread.trans hlast, rfl⟩⟩

/-! ## The language of the parser -/

/-- The parser accepts exactly the lists with a derivation of which no token
lies under more than 256 parentheses and negations, and builds the tree of that
derivation.  Every token has its place in it.  There is no other derivation, the
tree holds every operand of the list once and in order, and what stands side by
side does not add up. -/
theorem parse_accepts_exactly_the_grammar :
    (∀ (tokens : List Token) (tree : Expression),
      parse tokens = .ok tree ↔
        ∃ derivation : Derivation .sum, derivation.tokens = tokens ∧
          derivation.tree = tree ∧
          ∀ place ∈ derivation.places 0, place.2 ≤ 256) ∧
    (∀ derivation : Derivation .sum,
      (derivation.places 0).map Prod.fst = derivation.tokens) ∧
    (∀ left right : Derivation .sum,
      left.tokens = right.tokens → left = right) ∧
    (∀ (tokens : List Token) (tree : Expression), parse tokens = .ok tree →
      tree.operands = tokens.filter Token.isOperand) ∧
    ∀ (first : List Token) (rest : List (BinaryOperator × List Token)),
      (∃ tree, parse first = .ok tree) →
      (∀ piece ∈ rest, ∃ tree, parse piece.2 = .ok tree) →
        ∃ tree, parse (sideBySide first rest) = .ok tree := by
  refine ⟨fun tokens tree => parse_eq_ok_iff,
    fun derivation => derivation.map_fst_places 0,
    fun left right => Derivation.eq_of_tokens_eq, ?_,
    fun first rest => exists_parse_sideBySide_eq_ok⟩
  intro tokens tree hparse
  obtain ⟨derivation, rfl, rfl, -⟩ := parse_eq_ok_iff.mp hparse
  exact derivation.holdsOperands

/-- The tokens of `a - -(b)`. -/
def differenceTokens : List Token :=
  [.identifier "a", .minus, .minus, .openParen, .identifier "b", .closeParen]

def differenceTree : Expression :=
  .binary .subtract (.symbol "a") (.negation (.symbol "b"))

theorem parse_differenceTokens_by_grammar :
    parse differenceTokens = .ok differenceTree ∧
      (∃ derivation : Derivation .sum,
        derivation.tokens = differenceTokens ∧
          derivation.tree = differenceTree ∧
          (∀ place ∈ derivation.places 0, place.2 ≤ 256) ∧
          (derivation.places 0).map Prod.fst = differenceTokens ∧
          ∀ other : Derivation .sum, other.tokens = derivation.tokens →
            other = derivation) ∧
      differenceTree.operands = differenceTokens.filter Token.isOperand ∧
      ∃ tree, parse (sideBySide differenceTokens
        [(.multiply, differenceTokens), (.add, differenceTokens)]) =
          .ok tree := by
  obtain ⟨haccepts, hplaced, hunique, hoperands, hside⟩ :=
    parse_accepts_exactly_the_grammar
  have hparse : parse differenceTokens = .ok differenceTree := rfl
  obtain ⟨derivation, htokens, htree, hplaces⟩ :=
    (haccepts differenceTokens differenceTree).mp hparse
  refine ⟨hparse, ⟨derivation, htokens, htree, hplaces,
    (hplaced derivation).trans htokens, ?_⟩, hoperands _ _ hparse,
    hside _ _ ⟨_, hparse⟩ ?_⟩
  · intro other hother
    exact hunique other derivation hother
  · intro piece hpiece
    have htokens : piece.2 = differenceTokens := by
      simp only [List.mem_cons, List.not_mem_nil, or_false] at hpiece
      obtain rfl | rfl := hpiece <;> rfl
    exact ⟨differenceTree, htokens ▸ hparse⟩

end TournamentScoring.Formula
