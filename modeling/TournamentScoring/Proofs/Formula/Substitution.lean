import Mathlib.Data.List.Basic
import TournamentScoring.Proofs.Formula.Evaluation
import TournamentScoring.Proofs.Formula.Parsing

/-!
# A formula in place of a name

A name in a formula may be replaced by another formula in parentheses.  The grammar
is not disturbed by this, whatever stands around the name, and a token that comes
with the other formula lies as deep as the name does, one parenthesis more, and as it
lay before.  As long as no token lies too deep, the parser builds the expression with
the other one in place of the name, and this has the value that the name would give
it if it stood for the value of the other formula.
-/

namespace TournamentScoring.Formula

/-! ## Replacing a name -/

/-- The tokens with a group of other tokens wherever the name stands. -/
def substituteTokens (name : String) (inner tokens : List Token) : List Token :=
  tokens.flatMap fun token =>
    if token = .identifier name then .openParen :: (inner ++ [.closeParen])
    else [token]

/-- The expression with another one wherever the name stands. -/
def Expression.substitute (expression : Expression) (name : String)
    (inner : Expression) : Expression :=
  match expression with
  | number value => number value
  | symbol spelling => if spelling = name then inner else symbol spelling
  | negation operand => negation (operand.substitute name inner)
  | binary operator left right =>
    binary operator (left.substitute name inner) (right.substitute name inner)

namespace Derivation

/-- The derivation with a group wherever the name stands. -/
def substitute {phrase : Phrase} (derivation : Derivation phrase) (name : String)
    (inner : Derivation .sum) : Derivation phrase :=
  match derivation with
  | sum first rest => sum (first.substitute name inner) (rest.substitute name inner)
  | noAddend => noAddend
  | addend operator next rest =>
    addend operator (next.substitute name inner) (rest.substitute name inner)
  | product first rest =>
    product (first.substitute name inner) (rest.substitute name inner)
  | noFactor => noFactor
  | factor operator next rest =>
    factor operator (next.substitute name inner) (rest.substitute name inner)
  | negation operand => negation (operand.substitute name inner)
  | atom content => atom (content.substitute name inner)
  | number value => number value
  | identifier spelling => if spelling = name then group inner else identifier spelling
  | group content => group (content.substitute name inner)

/-- The places of a group around a derivation, for every place of the name. -/
def substitutePlaces (name : String) (inner : Derivation .sum)
    (places : List (Token × Nat)) : List (Token × Nat) :=
  places.flatMap fun place =>
    if place.1 = .identifier name then (group inner).places place.2 else [place]

theorem substitutePlaces_append (name : String) (inner : Derivation .sum)
    (left right : List (Token × Nat)) :
    substitutePlaces name inner (left ++ right) =
      substitutePlaces name inner left ++ substitutePlaces name inner right :=
  List.flatMap_append

theorem substitutePlaces_cons {name : String} (inner : Derivation .sum)
    {token : Token} (htoken : token ≠ .identifier name) (depth : Nat)
    (places : List (Token × Nat)) :
    substitutePlaces name inner ((token, depth) :: places) =
      (token, depth) :: substitutePlaces name inner places := by
  rw [substitutePlaces, List.flatMap_cons, if_neg htoken]
  rfl

theorem places_substitute {phrase : Phrase} (derivation : Derivation phrase)
    (name : String) (inner : Derivation .sum) (depth : Nat) :
    (derivation.substitute name inner).places depth =
      substitutePlaces name inner (derivation.places depth) := by
  induction derivation generalizing depth with
  | sum first rest ihFirst ihRest | product first rest ihFirst ihRest =>
    rw [substitute, places, places, ihFirst, ihRest, substitutePlaces_append]
  | noAddend | noFactor => rfl
  | addend operator next rest ihNext ihRest
  | factor operator next rest ihNext ihRest =>
    have htoken : operator.token ≠ .identifier name := by
      cases operator <;> rintro ⟨⟩
    rw [substitute, places, places, ihNext, ihRest, substitutePlaces_cons _ htoken,
      substitutePlaces_append]
  | negation operand ih =>
    have htoken : Token.minus ≠ .identifier name := by rintro ⟨⟩
    rw [substitute, places, places, ih, substitutePlaces_cons _ htoken]
  | atom content ih => exact ih depth
  | number value => rfl
  | identifier spelling =>
    rw [substitute, places, substitutePlaces, List.flatMap_singleton]
    by_cases hname : spelling = name
    · rw [if_pos hname, if_pos (congrArg Token.identifier hname)]
    · rw [if_neg hname, if_neg fun htoken => hname (Token.identifier.inj htoken)]
      rfl
  | group content ih =>
    have htoken : Token.openParen ≠ .identifier name := by rintro ⟨⟩
    have hclose : substitutePlaces name inner [(.closeParen, depth)] =
        [(.closeParen, depth)] := rfl
    rw [substitute, places, places, ih, substitutePlaces_cons _ htoken,
      substitutePlaces_append, hclose]

theorem map_fst_substitutePlaces (name : String) (inner : Derivation .sum)
    (places : List (Token × Nat)) :
    (substitutePlaces name inner places).map Prod.fst =
      substituteTokens name inner.tokens (places.map Prod.fst) := by
  rw [substitutePlaces, substituteTokens, List.map_flatMap, List.flatMap_map]
  refine List.flatMap_congr fun place _ => ?_
  split
  · exact map_fst_places _ _
  · rfl

theorem tokens_substitute {phrase : Phrase} (derivation : Derivation phrase)
    (name : String) (inner : Derivation .sum) :
    (derivation.substitute name inner).tokens =
      substituteTokens name inner.tokens derivation.tokens := by
  rw [← map_fst_places _ 0, places_substitute, map_fst_substitutePlaces, map_fst_places]

end Derivation

/-- A meaning with another expression in place of the name.  A repetition has it in
whatever it extends, too. -/
def Phrase.Substitutes (name : String) (inner : Expression) :
    (phrase : Phrase) → phrase.Meaning → phrase.Meaning → Prop
  | addends, before, after | factors, before, after => ∀ left : Expression,
    after (left.substitute name inner) =
      (before left).substitute name inner
  | sum, before, after | product, before, after | unary, before, after
  | atom, before, after => after = Expression.substitute before name inner

theorem Derivation.substitutes {phrase : Phrase} (derivation : Derivation phrase)
    (name : String) (inner : Derivation .sum) :
    phrase.Substitutes name inner.tree derivation.tree
      (derivation.substitute name inner).tree := by
  induction derivation with
  | sum first rest ihFirst ihRest | product first rest ihFirst ihRest =>
    have hfirst : (first.substitute name inner).tree =
        first.tree.substitute name inner.tree := ihFirst
    change (rest.substitute name inner).tree (first.substitute name inner).tree = _
    rw [hfirst]
    exact ihRest first.tree
  | noAddend | noFactor =>
    intro left
    rfl
  | addend operator next rest ihNext ihRest
  | factor operator next rest ihNext ihRest =>
    intro left
    have hnext : (next.substitute name inner).tree =
        next.tree.substitute name inner.tree := ihNext
    change (rest.substitute name inner).tree (.binary operator.operator
      (left.substitute name inner.tree) (next.substitute name inner).tree) = _
    rw [hnext]
    exact ihRest (.binary operator.operator left next.tree)
  | negation operand ih =>
    exact congrArg Expression.negation ih
  | atom content ih => exact ih
  | number value => rfl
  | identifier spelling =>
    change ((identifier spelling).substitute name inner).tree =
      (Expression.symbol spelling).substitute name inner.tree
    rw [substitute, Expression.substitute]
    split <;> rfl
  | group content ih => exact ih

/-- The value of the other expression may as well be the value of the name. -/
theorem Expression.evaluate_substitute {symbols : SymbolTable} {name : String}
    {inner : Expression} {value : Float}
    (hvalue : inner.evaluate symbols = .ok value) (expression : Expression) :
    (expression.substitute name inner).evaluate symbols =
      expression.evaluate (symbols.insert name value) := by
  induction expression with
  | number number => rfl
  | symbol spelling =>
    rw [substitute, evaluate, KeyedTable.get?_insert]
    split
    · exact hvalue
    · rfl
  | negation operand ih => rw [substitute, evaluate, evaluate, ih]
  | binary operator left right ihLeft ihRight =>
    rw [substitute, evaluate, evaluate, ihLeft, ihRight]

/-! ## Too deep -/

/-- How the parser refuses a derivation of each phrase that lies too deep, whatever
follows it. -/
def IsRefused : (phrase : Phrase) → Derivation phrase → Prop
  | .unary, derivation | .atom, derivation =>
    ∀ (level : Level) (outer : List Level) (after : List Token),
      Progress.nesting level outer ≤ nestingLimit →
      ¬derivation.Fits (Progress.nesting level outer) →
        (Progress.awaiting level outer).readAll (derivation.tokens ++ after) =
          .error .nestsTooDeep
  | .product, derivation | .sum, derivation =>
    ∀ (sum : Option Half) (outer : List Level) (after : List Token),
      enclosing outer ≤ nestingLimit → ¬derivation.Fits (enclosing outer) →
        (Progress.awaiting ⟨sum, none, 0⟩ outer).readAll (derivation.tokens ++ after) =
          .error .nestsTooDeep
  | .factors, derivation | .addends, derivation =>
    ∀ (sum : Option Half) (product : Expression) (outer : List Level)
      (after : List Token), enclosing outer ≤ nestingLimit →
      ¬derivation.Fits (enclosing outer) →
        (Progress.complete sum product outer).readAll (derivation.tokens ++ after) =
          .error .nestsTooDeep

open Progress in
/-- What comes before the first token that lies too deep is read, so the parser gets
there.  The token is a parenthesis or a minus that may not be opened. -/
theorem Derivation.isRefused {phrase : Phrase} (derivation : Derivation phrase) :
    IsRefused phrase derivation := by
  induction derivation with
  | sum first rest ihFirst ihRest =>
    intro sum outer after hdepth hfits
    rw [tokens, List.append_assoc]
    by_cases hfirst : first.Fits (enclosing outer)
    · rw [first.isRead sum outer _ hfirst]
      exact ihRest sum first.tree outer after hdepth
        fun hrest => hfits (fits_sum.mpr ⟨hfirst, hrest⟩)
    · exact ihFirst sum outer _ hdepth hfirst
  | noAddend =>
    intro sum product outer after _ hfits
    exact absurd fits_noAddend hfits
  | addend operator next rest ihNext ihRest =>
    intro sum product outer after hdepth hfits
    rw [tokens, List.cons_append, List.append_assoc,
      (Step.addition sum product outer operator).readAll_cons]
    by_cases hnext : next.Fits (enclosing outer)
    · rw [next.isRead _ outer _ hnext]
      exact ihRest _ _ outer after hdepth
        fun hrest => hfits (fits_addend.mpr ⟨hdepth, hnext, hrest⟩)
    · exact ihNext _ outer _ hdepth hnext
  | product first rest ihFirst ihRest =>
    intro sum outer after hdepth hfits
    have hnesting : nesting ⟨sum, none, 0⟩ outer = enclosing outer := by
      rw [nesting_eq, Nat.zero_add]
    rw [tokens, List.append_assoc]
    by_cases hfirst : first.Fits (enclosing outer)
    · rw [first.isRead _ outer _ (by rwa [hnesting])]
      exact ihRest sum first.tree outer after hdepth
        fun hrest => hfits (fits_product.mpr ⟨hfirst, hrest⟩)
    · exact ihFirst _ outer _ (by rwa [hnesting]) (by rwa [hnesting])
  | noFactor =>
    intro sum product outer after _ hfits
    exact absurd fits_noFactor hfits
  | factor operator next rest ihNext ihRest =>
    intro sum product outer after hdepth hfits
    have hnesting : nesting ⟨sum, some ⟨product, operator.operator⟩, 0⟩ outer =
        enclosing outer := by
      rw [nesting_eq, Nat.zero_add]
    rw [tokens, List.cons_append, List.append_assoc,
      (Step.multiplication sum product outer operator).readAll_cons]
    by_cases hnext : next.Fits (enclosing outer)
    · rw [next.isRead _ outer _ (by rwa [hnesting])]
      exact ihRest sum _ outer after hdepth
        fun hrest => hfits (fits_factor.mpr ⟨hdepth, hnext, hrest⟩)
    · exact ihNext _ outer _ (by rwa [hnesting]) (by rwa [hnesting])
  | negation operand ih =>
    intro level outer after hdepth hfits
    rw [tokens, List.cons_append]
    by_cases hnesting : nesting level outer < nestingLimit
    · rw [(Step.negation hnesting).readAll_cons]
      refine ih level.negated outer after ?_ ?_
      · rw [nesting_negated]
        exact hnesting
      · rw [nesting_negated]
        exact fun hoperand => hfits (fits_negation.mpr ⟨hdepth, hoperand⟩)
    · rw [readAll, Progress.read, readOperand, if_neg hnesting]
  | atom content ih => exact ih
  | number value =>
    intro level outer after hdepth hfits
    exact absurd (fits_number.mpr hdepth) hfits
  | identifier spelling =>
    intro level outer after hdepth hfits
    exact absurd (fits_identifier.mpr hdepth) hfits
  | group content ih =>
    intro level outer after hdepth hfits
    rw [tokens, List.cons_append, List.append_assoc]
    by_cases hnesting : nesting level outer < nestingLimit
    · rw [(Step.opening hnesting).readAll_cons]
      refine ih none (level :: outer) _ ?_ ?_
      · rw [enclosing_cons]
        exact hnesting
      · rw [enclosing_cons]
        exact fun hcontent => hfits (fits_group.mpr ⟨hdepth, hcontent⟩)
    · rw [readAll, Progress.read, readOperand, if_neg hnesting]

/-- A list by the grammar is refused only for its depth. -/
theorem parse_eq_nestsTooDeep {derivation : Derivation .sum}
    (hfits : ¬derivation.Fits 0) : parse derivation.tokens = .error .nestsTooDeep := by
  have hread := derivation.isRefused none [] [] (Nat.zero_le _) hfits
  rw [List.append_nil] at hread
  cases htokens : derivation.tokens with
  | nil =>
    rw [htokens] at hread
    cases hread
  | cons token tokens =>
    have hstart : Progress.start.readAll derivation.tokens = .error .nestsTooDeep := hread
    rw [← htokens, parse, if_neg (by simp [htokens]), hstart]

/-! ## Formulas in formulas -/

/-- Replacing a name of an accepted list by another accepted list in parentheses
gives a list by the grammar, in which the tokens of the other list lie below the
places of the name.  If none lies under more than 256 parentheses and negations, the
parser builds the one expression with the other in place of the name, and its value
or failure is what the name gives for the value of the other.  Otherwise the list
nests too deep. -/
theorem parse_substituteTokens (name : String) {outer inner : List Token}
    {tree innerTree : Expression} (houter : parse outer = .ok tree)
    (hinner : parse inner = .ok innerTree) :
    ∃ host guest whole : Derivation .sum,
      host.tokens = outer ∧ guest.tokens = inner ∧
      whole.tokens = substituteTokens name inner outer ∧
      whole.places 0 = Derivation.substitutePlaces name guest (host.places 0) ∧
      ((∀ place ∈ whole.places 0, place.2 ≤ 256) →
        parse (substituteTokens name inner outer) =
            .ok (tree.substitute name innerTree) ∧
          ∀ (symbols : SymbolTable) (value : Float),
            innerTree.evaluate symbols = .ok value →
              (tree.substitute name innerTree).evaluate symbols =
                tree.evaluate (symbols.insert name value)) ∧
      ((∃ place ∈ whole.places 0, 256 < place.2) →
        parse (substituteTokens name inner outer) = .error .nestsTooDeep) := by
  obtain ⟨host, rfl, rfl, -⟩ := parse_eq_ok_iff.mp houter
  obtain ⟨guest, rfl, rfl, -⟩ := parse_eq_ok_iff.mp hinner
  have htokens := host.tokens_substitute name guest
  have htree : (host.substitute name guest).tree =
      host.tree.substitute name guest.tree := host.substitutes name guest
  refine ⟨host, guest, host.substitute name guest, rfl, rfl, htokens,
    host.places_substitute name guest 0, fun hfits => ⟨?_, ?_⟩, ?_⟩
  · exact parse_eq_ok_iff.mpr ⟨_, htokens, htree, hfits⟩
  · intro symbols value hvalue
    exact Expression.evaluate_substitute hvalue _
  · rintro ⟨place, hplace, hdeep⟩
    rw [← htokens]
    exact parse_eq_nestsTooDeep fun hfits =>
      Nat.not_le.mpr hdeep (hfits place hplace)

/-- The tokens of `x * -x`. -/
def squareTokens : List Token :=
  [.identifier "x", .star, .minus, .identifier "x"]

def squareTree (operand : Expression) : Expression :=
  .binary .multiply operand (.negation operand)

/-- The tokens of `a + b`. -/
def sumTokens : List Token :=
  [.identifier "a", .plus, .identifier "b"]

def sumTree : Expression :=
  .binary .add (.symbol "a") (.symbol "b")

/-- The derivation of `(a + b)`. -/
def groupedSum : Derivation .unary :=
  .atom (.group (.sum (.product (.atom (.identifier "a")) .noFactor)
    (.addend .add (.product (.atom (.identifier "b")) .noFactor) .noAddend)))

theorem parse_squareTokens_of_sum :
    parse squareTokens = .ok (squareTree (.symbol "x")) ∧
      parse sumTokens = .ok sumTree ∧
      parse (substituteTokens "x" sumTokens squareTokens) = .ok (squareTree sumTree) ∧
      ∀ (symbols : SymbolTable) (value : Float), sumTree.evaluate symbols = .ok value →
        (squareTree sumTree).evaluate symbols =
          (squareTree (.symbol "x")).evaluate (symbols.insert "x" value) := by
  have hsquare : parse squareTokens = .ok (squareTree (.symbol "x")) := rfl
  have hsum : parse sumTokens = .ok sumTree := rfl
  obtain ⟨host, guest, whole, -, -, htokens, -, hwithin, -⟩ :=
    parse_substituteTokens "x" hsquare hsum
  obtain rfl : whole = .sum (.product groupedSum
      (.factor .multiply (.negation groupedSum) .noFactor)) .noAddend :=
    Derivation.eq_of_tokens_eq htokens
  obtain ⟨hparse, hvalue⟩ := hwithin (by decide)
  exact ⟨hsquare, hsum, hparse, hvalue⟩

end TournamentScoring.Formula
