import TournamentScoring.Formula.Parser
import TournamentScoring.Proofs.Formula.Lexemes
import TournamentScoring.Scoring.Error

/-!
# What the lexer accepts

Where a text does not start with a blank character, the lexer takes the one lexeme that
ends there, or it refuses the text for what is found at its start.  So a text is accepted
if it is a row of blank characters and longest lexemes, and any other text is malformed.
-/

namespace TournamentScoring.Formula

open TournamentScoring.Text

/-! ## What the lexer does with the next word -/

namespace Literal

/-- A literal as the lexer cuts it from the text. -/
def numeral (literal : Literal) (after : List Char) : Numeral :=
  match literal with
  | whole digits _ _ => ⟨digits, false, [], after⟩
  | pointed digits fraction _ _ _ => ⟨digits, true, fraction, after⟩

variable (literal : Literal) (after : List Char)

theorem spelling_numeral : (literal.numeral after).spelling = literal.spelling := by
  cases literal <;> simp [numeral, Numeral.spelling, spelling]

theorem rest_numeral : (literal.numeral after).rest = after := by
  cases literal <;> rfl

theorem value_numeral : (literal.numeral after).value = literal.value := by
  cases literal <;> rfl

theorem isComplete_numeral : (literal.numeral after).isComplete = true := by
  cases literal with
  | whole digits hdigits hne => simpa [numeral, Numeral.isComplete] using hne
  | pointed digits fraction hdigits hfraction hne =>
    simpa [numeral, Numeral.isComplete] using hne

variable {literal after}

theorem scan_pointed {digits fraction : List Char}
    (hdigits : ∀ digit ∈ digits, digit.isDigit = true)
    (hfraction : ∀ digit ∈ fraction, digit.isDigit = true)
    (hafter : Stops Char.isDigit after) :
    Numeral.scan (digits ++ '.' :: (fraction ++ after)) =
      ⟨digits, true, fraction, after⟩ := by
  have hpoint : Stops Char.isDigit ('.' :: (fraction ++ after)) :=
    stops_cons.mpr (by decide)
  rw [Numeral.scan, takeWhile_run hdigits hpoint, dropWhile_run hdigits hpoint]
  simp only [takeWhile_run hfraction hafter, dropWhile_run hfraction hafter]

theorem scan_spelling (hafter : Stops literal.isContinuedBy after) :
    Numeral.scan (literal.spelling ++ after) = literal.numeral after := by
  cases literal with
  | whole digits hdigits hne =>
    have hdigit : Stops Char.isDigit after :=
      hafter.mono fun character hcharacter => Bool.or_eq_true_iff.mpr (.inl hcharacter)
    rw [spelling, Numeral.scan, takeWhile_run hdigits hdigit, dropWhile_run hdigits hdigit]
    split
    · exact absurd (stops_cons.mp hafter) (by simp [isContinuedBy])
    · rfl
  | pointed digits fraction hdigits hfraction hne =>
    rw [spelling, List.append_assoc, List.cons_append]
    exact scan_pointed hdigits hfraction hafter

theorem read_numeral (position : Nat) :
    (literal.numeral after).read position =
      if after.head?.any isNameStart then .error (.nameAfterDigits position)
      else if !literal.value.isFinite then
        .error (.invalidNumber (String.ofList literal.spelling) position)
      else .ok literal.value := by
  rw [Numeral.read, isComplete_numeral, spelling_numeral, rest_numeral, value_numeral]
  rfl

end Literal

theorem tokensFrom_of_not_symbol {first : Char} (hblank : ¬isBlank first = true)
    (hsymbol : ¬Kind.symbol.starts first = true) (rest : List Char) (position : Nat) :
    tokensFrom position (first :: rest) =
      if Kind.number.starts first then
        match (Numeral.scan (first :: rest)).read position with
        | .error cause => .error cause
        | .ok value =>
          (tokensFrom (position + (Numeral.scan (first :: rest)).spelling.length)
            (Numeral.scan (first :: rest)).rest).map (.number value :: ·)
      else if Kind.name.starts first then
        (tokensFrom (position + (first :: rest.takeWhile isNameRest).length)
          (rest.dropWhile isNameRest)).map
            (.identifier (String.ofList (first :: rest.takeWhile isNameRest)) :: ·)
      else .error (.unexpectedCharacter first position) := by
  rw [Kind.starts, Option.not_isSome_iff_eq_none] at hsymbol
  rw [tokensFrom, if_neg hblank]
  simp only [hsymbol, Kind.starts, dite_eq_ite]
  rfl

theorem tokensFrom_of_starts_number {first : Char} (hfirst : Kind.number.starts first = true)
    (rest : List Char) (position : Nat) :
    tokensFrom position (first :: rest) =
      match (Numeral.scan (first :: rest)).read position with
      | .error cause => .error cause
      | .ok value =>
        (tokensFrom (position + (Numeral.scan (first :: rest)).spelling.length)
          (Numeral.scan (first :: rest)).rest).map (.number value :: ·) := by
  rw [tokensFrom_of_not_symbol (Kind.not_isBlank_of_starts hfirst)
    (Kind.not_starts_symbol hfirst (by decide)), if_pos hfirst]

theorem tokensFrom_literal {literal : Literal} {after : List Char}
    (hafter : Stops literal.isContinuedBy after) (position : Nat) :
    tokensFrom position (literal.spelling ++ after) =
      match (literal.numeral after).read position with
      | .error cause => .error cause
      | .ok value =>
        (tokensFrom (position + literal.spelling.length) after).map (.number value :: ·) := by
  have hscan := Literal.scan_spelling hafter
  obtain ⟨first, rest, hspelling, hfirst⟩ := literal.exists_spelling_eq_cons
  have htext : literal.spelling ++ after = first :: (rest ++ after) := by
    rw [hspelling, List.cons_append]
  rw [htext] at hscan ⊢
  rw [tokensFrom_of_starts_number hfirst, hscan, literal.spelling_numeral,
    literal.rest_numeral]

/-- The lexer takes a lexeme that ends, and goes on behind it. -/
theorem tokensFrom_lexeme {lexeme : Lexeme} {after : List Char} (hends : lexeme.Ends after)
    (hfinite : lexeme.IsFinite) (position : Nat) :
    tokensFrom position (lexeme.spelling ++ after) =
      (tokensFrom (position + lexeme.spelling.length) after).map (lexeme.token :: ·) := by
  cases lexeme with
  | symbol character token hsymbol =>
    have hstarts := Kind.starts_symbol_iff.mpr ⟨token, hsymbol⟩
    rw [Lexeme.spelling, List.singleton_append, tokensFrom,
      if_neg (Kind.not_isBlank_of_starts hstarts)]
    simp only [Token.ofSymbol?_eq_some_iff.mpr hsymbol]
    rfl
  | name first rest hfirst hrest =>
    have hstarts : Kind.name.starts first = true := hfirst
    rw [Lexeme.spelling, List.cons_append,
      tokensFrom_of_not_symbol (Kind.not_isBlank_of_starts hstarts)
        (Kind.not_starts_symbol hstarts (by decide)),
      if_neg (Kind.not_starts_number_of_starts_name hstarts), if_pos hstarts,
      takeWhile_run hrest hends, dropWhile_run hrest hends]
    rfl
  | number literal =>
    obtain ⟨hname, hcontinued⟩ := Lexeme.ends_number_iff.mp hends
    have hvalue : literal.value.isFinite = true := hfinite
    rw [Lexeme.spelling, tokensFrom_literal hcontinued, Literal.read_numeral,
      if_neg (Bool.not_eq_true _ ▸ stops_iff.mp hname), hvalue]
    rfl

/-! ## Where the lexer stops -/

/-- A text that a lexeme can be taken from. -/
def Taken (text : List Char) : Prop :=
  ∃ (lexeme : Lexeme) (after : List Char), text = lexeme.spelling ++ after ∧
    lexeme.Ends after ∧ lexeme.IsFinite

/-- A text that no lexeme can be taken from, and the fault that is found at its start. -/
inductive Refused : List Char → (Nat → Malformation) → Prop
  | character {first : Char} {after : List Char} (hblank : ¬isBlank first = true)
      (hfirst : ∀ kind : Kind, ¬kind.starts first = true) :
      Refused (first :: after) (.unexpectedCharacter first)
  | point {digits after : List Char} (hdigits : ∀ digit ∈ digits, digit.isDigit = true)
      (hafter : Stops Char.isDigit after) :
      Refused (digits ++ '.' :: after) (.invalidNumber (String.ofList (digits ++ ['.'])))
  | joined (literal : Literal) {after : List Char}
      (hcontinued : Stops literal.isContinuedBy after) (hname : ¬Stops isNameStart after) :
      Refused (literal.spelling ++ after) .nameAfterDigits
  | infinite (literal : Literal) {after : List Char}
      (hends : (Lexeme.number literal).Ends after)
      (hinfinite : literal.value.isFinite = false) :
      Refused (literal.spelling ++ after) (.invalidNumber (String.ofList literal.spelling))

theorem Refused.tokensFrom_eq {text : List Char} {fault : Nat → Malformation}
    (hrefused : Refused text fault) (position : Nat) :
    tokensFrom position text = .error (fault position) := by
  cases hrefused with
  | character hblank hfirst =>
    rw [tokensFrom_of_not_symbol hblank (hfirst .symbol), if_neg (hfirst .number),
      if_neg (hfirst .name)]
  | @point digits after hdigits hafter =>
    have hscan : Numeral.scan (digits ++ '.' :: after) = ⟨digits, true, [], after⟩ :=
      Literal.scan_pointed hdigits (List.forall_mem_nil _) hafter
    have hincomplete : (Numeral.mk digits true [] after).isComplete = false := rfl
    have hspelling : (Numeral.mk digits true [] after).spelling = digits ++ ['.'] :=
      List.append_nil _
    obtain ⟨first, rest, htext, hfirst⟩ := exists_pointed_eq_cons hdigits after
    rw [htext] at hscan ⊢
    rw [tokensFrom_of_starts_number hfirst, hscan, Numeral.read, hincomplete, hspelling]
    rfl
  | @joined literal after hcontinued hname =>
    rw [stops_iff, Bool.not_eq_false] at hname
    rw [tokensFrom_literal hcontinued, Literal.read_numeral, if_pos hname]
  | infinite literal hends hinfinite =>
    obtain ⟨hname, hcontinued⟩ := Lexeme.ends_number_iff.mp hends
    rw [tokensFrom_literal hcontinued, Literal.read_numeral,
      if_neg (Bool.not_eq_true _ ▸ stops_iff.mp hname), hinfinite]
    rfl

/-- A literal is taken unless it runs into a name or is out of range. -/
theorem Literal.taken_or_refused (literal : Literal) {after : List Char}
    (hcontinued : Stops literal.isContinuedBy after) :
    Taken (literal.spelling ++ after) ∨
      ∃ fault, Refused (literal.spelling ++ after) fault := by
  by_cases hname : Stops isNameStart after
  · have hends := Lexeme.ends_number_iff.mpr ⟨hname, hcontinued⟩
    cases hfinite : literal.value.isFinite with
    | true => exact .inl ⟨.number literal, after, rfl, hends, hfinite⟩
    | false => exact .inr ⟨_, .infinite literal hends hfinite⟩
  · exact .inr ⟨_, .joined literal hcontinued hname⟩

theorem taken_or_refused_of_starts_number {first : Char} {rest : List Char}
    (hfirst : Kind.number.starts first = true) :
    Taken (first :: rest) ∨ ∃ fault, Refused (first :: rest) fault := by
  obtain ⟨digits, after, htext, hdigits, hstops⟩ := exists_run Char.isDigit (first :: rest)
  by_cases hpoint : ∃ behind, after = '.' :: behind
  · obtain ⟨behind, rfl⟩ := hpoint
    obtain ⟨fraction, after, rfl, hfraction, hafter⟩ := exists_run Char.isDigit behind
    rw [htext]
    by_cases hne : fraction = []
    · obtain rfl := hne
      exact .inr ⟨_, .point hdigits hafter⟩
    · have hcases := (Literal.pointed digits _ hdigits hfraction hne).taken_or_refused hafter
      rwa [Literal.spelling, List.append_assoc] at hcases
  · have hcontinued : ∀ next ∈ after.head?, (next.isDigit || next == '.') = false := by
      intro next hnext
      refine Bool.or_eq_false_iff.mpr ⟨hstops next hnext, beq_eq_false_iff_ne.mpr ?_⟩
      rintro rfl
      exact hpoint ⟨after.tail, (List.cons_head?_tail hnext).symm⟩
    -- Without digits the text would start with what does not go on a number.
    have hne : digits ≠ [] := by
      rintro rfl
      rw [List.nil_append] at htext
      have hstop := hcontinued first (by rw [← htext]; rfl)
      rw [Kind.starts, hstop] at hfirst
      cases hfirst
    rw [htext]
    exact (Literal.whole digits hdigits hne).taken_or_refused hcontinued

/-- A text that does not start with a blank character starts with a lexeme, or it is
refused. -/
theorem taken_or_refused {first : Char} (hblank : ¬isBlank first = true)
    (rest : List Char) :
    Taken (first :: rest) ∨ ∃ fault, Refused (first :: rest) fault := by
  by_cases hstarts : ∃ kind : Kind, kind.starts first = true
  · obtain ⟨kind, hkind⟩ := hstarts
    cases kind with
    | symbol =>
      obtain ⟨token, hsymbol⟩ := Kind.starts_symbol_iff.mp hkind
      exact .inl ⟨.symbol first token hsymbol, rest, rfl, fun _ _ => rfl, trivial⟩
    | number => exact taken_or_refused_of_starts_number hkind
    | name =>
      obtain ⟨more, after, rfl, hmore, hafter⟩ := exists_run isNameRest rest
      exact .inl ⟨.name first more hkind hmore, after, rfl, hafter, trivial⟩
  · exact .inr ⟨_, .character hblank (not_exists.mp hstarts)⟩

/-- The words of a text, as the lexer meets them. -/
@[elab_as_elim]
theorem words_induction {motive : List Char → Prop} (nil : motive [])
    (blank : ∀ first rest, isBlank first = true → motive rest → motive (first :: rest))
    (lexeme : ∀ (lexeme : Lexeme) (after : List Char), lexeme.Ends after →
      lexeme.IsFinite → motive after → motive (lexeme.spelling ++ after))
    (refused : ∀ text fault, Refused text fault → motive text) (text : List Char) :
    motive text := by
  induction hlength : text.length using Nat.strong_induction_on generalizing text with
  | _ length ih =>
    subst hlength
    cases text with
    | nil => exact nil
    | cons first rest =>
      by_cases hblank : isBlank first = true
      · exact blank first rest hblank (ih _ (Nat.lt_succ_self _) rest rfl)
      · rcases taken_or_refused hblank rest with ⟨word, after, htext, hends, hfinite⟩ |
          ⟨fault, hrefused⟩
        · obtain ⟨start, more, hspelling, -⟩ := word.exists_spelling_eq_cons
          have hshorter : after.length < (first :: rest).length := by
            rw [htext, hspelling, List.length_append, List.length_cons]
            omega
          rw [htext]
          exact lexeme word after hends hfinite (ih _ hshorter after rfl)
        · exact refused _ fault hrefused

/-! ## Accepted texts -/

/-- Behind a number that ends there is no lone point if the lexer takes what follows. -/
theorem Lexeme.Ends.mayPrecede {lexeme : Lexeme} {after : List Char} {position : Nat}
    {tokens : List Token} (hends : lexeme.Ends after)
    (hafter : tokensFrom position after = .ok tokens) : lexeme.MayPrecede after := by
  cases lexeme with
  | symbol => trivial
  | name => trivial
  | number literal =>
    refine ⟨(ends_number_iff.mp hends).1, ?_⟩
    rintro rest rfl hstops
    have hrefused : Refused ([] ++ '.' :: rest) _ := .point (List.forall_mem_nil _) hstops
    cases hafter.symm.trans (hrefused.tokensFrom_eq position)

theorem tokensFrom_eq_ok_of_lexes {text : List Char} {tokens : List Token}
    (hlexes : Lexes text tokens) (position : Nat) :
    tokensFrom position text = .ok tokens := by
  induction hlexes generalizing position with
  | nil => rw [tokensFrom]
  | blank hblank hrest ih => rw [tokensFrom, if_pos hblank, ih]
  | lexeme lexeme hlongest hafter hfinite hrest ih =>
    rw [tokensFrom_lexeme (Lexeme.ends_of_isLongest hlongest hafter) hfinite, ih]
    rfl

theorem lexes_of_tokensFrom_eq_ok {text : List Char} {position : Nat}
    {tokens : List Token} (htokens : tokensFrom position text = .ok tokens) :
    Lexes text tokens := by
  induction text using words_induction generalizing position tokens with
  | nil =>
    rw [tokensFrom] at htokens
    exact Except.ok.inj htokens ▸ .nil
  | blank first rest hblank ih =>
    rw [tokensFrom, if_pos hblank] at htokens
    exact .blank hblank (ih htokens)
  | lexeme lexeme after hends hfinite ih =>
    rw [tokensFrom_lexeme hends hfinite] at htokens
    cases hafter : tokensFrom (position + lexeme.spelling.length) after with
    | error cause => rw [hafter] at htokens; cases htokens
    | ok others =>
      rw [hafter] at htokens
      obtain rfl : lexeme.token :: others = tokens := Except.ok.inj htokens
      exact .lexeme lexeme hends.isLongest (hends.mayPrecede hafter) hfinite (ih hafter)
  | refused text fault hrefused => cases htokens.symm.trans (hrefused.tokensFrom_eq position)

theorem tokenize_eq_ok_iff {source : String} {tokens : List Token} :
    tokenize source = .ok tokens ↔ Lexes source.toList tokens :=
  ⟨lexes_of_tokensFrom_eq_ok, fun hlexes => tokensFrom_eq_ok_of_lexes hlexes 0⟩

/-- A text without such words is malformed, whatever its names stand for. -/
theorem exists_malformation_of_not_lexes {source : String}
    (hnone : ∀ tokens, ¬Lexes source.toList tokens) :
    ∃ cause, tokenize source = .error cause ∧
      ∀ symbols, evaluate source symbols = .error (.malformed cause) := by
  cases htokens : tokenize source with
  | ok tokens => exact absurd (tokenize_eq_ok_iff.mp htokens) (hnone tokens)
  | error cause => exact ⟨cause, rfl, fun symbols => by rw [evaluate, compile, htokens]⟩

/-- The tokens of a formula are those of its lexemes, taken from the left and always the
longest.  A name stands for itself and a number for the nearest float, which must be in
range.  A text that does not consist of lexemes and blank characters is malformed. -/
theorem tokenize_takes_the_longest_lexemes :
    (∀ (source : String) (tokens : List Token),
      tokenize source = .ok tokens ↔ Lexes source.toList tokens) ∧
    (∀ source : String, (∀ tokens, ¬Lexes source.toList tokens) →
      ∃ cause, tokenize source = .error cause ∧ ∀ symbols, ∃ failure,
        evaluate source symbols = .error failure ∧
          (ScoringError.formula failure).kind = "MalformedFormula") ∧
    ∀ literal : Literal, Binary64.Rounds literal.exact literal.value.toModel.unpack := by
  refine ⟨fun source tokens => tokenize_eq_ok_iff, fun source hnone => ?_,
    Literal.rounds_value⟩
  obtain ⟨cause, htokens, hevaluate⟩ := exists_malformation_of_not_lexes hnone
  exact ⟨cause, htokens, fun symbols => ⟨_, hevaluate symbols, rfl⟩⟩

/-- The second point starts a number of its own, and a point at the end is refused. -/
theorem points_between_and_behind_numbers :
    Lexes "1.5.2".toList [.number 1.5, .number 0.2] ∧
      (∀ tokens, ¬Lexes "1.".toList tokens) ∧
      ∃ cause, tokenize "1." = .error cause ∧ ∀ symbols, ∃ failure,
        evaluate "1." symbols = .error failure ∧
          (ScoringError.formula failure).kind = "MalformedFormula" := by
  obtain ⟨haccepts, hrefuses, -⟩ := tokenize_takes_the_longest_lexemes
  have htwo : tokenize "1.5.2" = .ok [.number 1.5, .number 0.2] := by
    decide +kernel
  have hpoint : tokenize "1." = .error (.invalidNumber "1." 0) := by
    cbv
  have hnone : ∀ tokens, ¬Lexes "1.".toList tokens := by
    intro tokens hlexes
    cases hpoint.symm.trans ((haccepts "1." tokens).mpr hlexes)
  exact ⟨(haccepts _ _).mp htwo, hnone, hrefuses _ hnone⟩

end TournamentScoring.Formula
