import TournamentScoring.Proofs.Formula.Parsing
import TournamentScoring.Scoring.Error

/-!
# Where the parser gives up

Every state of the parser can still lead to a formula: an operand may follow where one is
awaited, and then the open parentheses may be closed.  So the tokens that the parser has
read without an error are always the start of a formula, and it gives up at the very first
token that is not.  What follows this token cannot change the error any more.
-/

namespace TournamentScoring.Formula

/-- Tokens that some further tokens, or none, make a formula. -/
def Viable (tokens : List Token) : Prop :=
  ∃ after tree, parse (tokens ++ after) = .ok tree

/-- The errors at one token, which they name where they do not say that it lies too deep. -/
def Malformation.Blames (cause : Malformation) (token : Token) : Prop :=
  cause = .expectedOperand token ∨ cause = .expectedClose token ∨ cause = .trailing token ∨
    cause = .nestsTooDeep ∧ (token = .minus ∨ token = .openParen)

/-! ## Reading on -/

namespace Progress

theorem readAll_append (progress : Progress) (tokens after : List Token) :
    progress.readAll (tokens ++ after) =
      (progress.readAll tokens).bind fun next => next.readAll after := by
  induction tokens generalizing progress with
  | nil => rfl
  | cons token tokens ih =>
    rw [List.cons_append, readAll, readAll]
    cases progress.read token with
    | error cause => rfl
    | ok next => exact ih next

/-- A state from which some tokens lead to an expression. -/
def CanFinish (progress : Progress) : Prop :=
  ∃ after last tree, progress.readAll after = .ok last ∧ last.finish = .ok tree

theorem Step.canFinish {progress next : Progress} {token : Token}
    (hstep : Step progress token next) (hnext : next.CanFinish) : progress.CanFinish := by
  obtain ⟨after, last, tree, hread, hfinish⟩ := hnext
  exact ⟨token :: after, last, tree, (hstep.readAll_cons after).trans hread, hfinish⟩

/-- A complete product needs nothing but its parentheses closed. -/
theorem canFinish_complete (sum : Option Half) (product : Expression) (outer : List Level) :
    (complete sum product outer).CanFinish := by
  induction outer generalizing sum product with
  | nil => exact ⟨[], _, _, rfl, rfl⟩
  | cons level outer ih =>
    apply (Step.closing sum product level outer).canFinish
    exact ih level.sum (level.withOperand (Half.complete sum product))

/-- No state is a dead end: an operand costs no nesting, so it may follow however deep
the state lies. -/
theorem canFinish (progress : Progress) : progress.CanFinish := by
  cases progress with
  | awaiting level outer =>
    apply (Step.identifier level outer "x").canFinish
    exact canFinish_complete level.sum (level.withOperand (.symbol "x")) outer
  | complete sum product outer => exact canFinish_complete sum product outer

/-- Reading fails at one token, after others that were read. -/
theorem exists_token_of_readAll_eq_error {progress : Progress} {tokens : List Token}
    {cause : Malformation} (hread : progress.readAll tokens = .error cause) :
    ∃ before token after state, tokens = before ++ token :: after ∧
      progress.readAll before = .ok state ∧ state.read token = .error cause := by
  induction tokens generalizing progress with
  | nil => cases hread
  | cons token tokens ih =>
    rw [readAll] at hread
    cases hnext : progress.read token with
    | error found =>
      rw [hnext] at hread
      cases hread
      exact ⟨[], token, tokens, progress, rfl, rfl, hnext⟩
    | ok next =>
      rw [hnext] at hread
      obtain ⟨before, failing, after, state, rfl, hbefore, hfails⟩ := ih hread
      refine ⟨token :: before, failing, after, state, rfl, ?_, hfails⟩
      rw [readAll, hnext]
      exact hbefore

theorem blames_of_read_eq_error {progress : Progress} {token : Token}
    {cause : Malformation} (hread : progress.read token = .error cause) :
    cause.Blames token := by
  cases progress with
  | awaiting level outer =>
    cases token with
    | number value | identifier name => cases hread
    | plus | star | slash | closeParen =>
      cases hread
      exact .inl rfl
    | minus =>
      change (if _ then _ else _) = _ at hread
      split at hread
      · cases hread
      · cases hread
        exact .inr (.inr (.inr ⟨rfl, .inl rfl⟩))
    | openParen =>
      change (if _ then _ else _) = _ at hread
      split at hread
      · cases hread
      · cases hread
        exact .inr (.inr (.inr ⟨rfl, .inr rfl⟩))
  | complete sum product outer =>
    cases outer with
    | nil =>
      cases token <;> cases hread <;> exact .inr (.inr (.inl rfl))
    | cons level outer =>
      cases token <;> cases hread <;> exact .inr (.inl rfl)

theorem finish_eq_error {last : Progress} {cause : Malformation}
    (hfinish : last.finish = .error cause) :
    cause = .unexpectedEnd ∨ cause = .missingClose := by
  cases last with
  | awaiting level outer =>
    cases hfinish
    exact .inl rfl
  | complete sum product outer =>
    cases outer with
    | nil => cases hfinish
    | cons level outer =>
      cases hfinish
      exact .inr rfl

end Progress

/-! ## Viable tokens -/

/-- The start of a formula is what the parser reads. -/
theorem viable_iff {tokens : List Token} :
    Viable tokens ↔ ∃ progress, Progress.start.readAll tokens = .ok progress := by
  constructor
  · rintro ⟨after, tree, hparse⟩
    obtain ⟨last, hread, -⟩ := parse_eq_ok_iff_readAll.mp hparse
    rw [Progress.readAll_append] at hread
    cases htokens : Progress.start.readAll tokens with
    | ok progress => exact ⟨progress, rfl⟩
    | error cause =>
      rw [htokens] at hread
      cases hread
  · rintro ⟨progress, htokens⟩
    obtain ⟨after, last, tree, hread, hfinish⟩ := progress.canFinish
    refine ⟨after, tree, parse_eq_ok_iff_readAll.mpr ⟨last, ?_, hfinish⟩⟩
    rw [Progress.readAll_append, htokens]
    exact hread

theorem Viable.of_append {tokens after : List Token} (hviable : Viable (tokens ++ after)) :
    Viable tokens := by
  obtain ⟨rest, tree, hparse⟩ := hviable
  rw [List.append_assoc] at hparse
  exact ⟨after ++ rest, tree, hparse⟩

theorem Viable.take {tokens : List Token} (hviable : Viable tokens) (count : Nat) :
    Viable (tokens.take count) := by
  apply Viable.of_append
  rwa [List.take_append_drop]

/-- An error in reading is the error of the parser, whatever follows. -/
theorem parse_append_of_readAll_eq_error {tokens : List Token} {cause : Malformation}
    (hread : Progress.start.readAll tokens = .error cause) (after : List Token) :
    parse (tokens ++ after) = .error cause := by
  cases tokens with
  | nil => cases hread
  | cons token tokens =>
    rw [parse, if_neg (by simp), Progress.readAll_append, hread]
    rfl

/-- The parser fails on no tokens, while it reads, or at their end. -/
theorem parse_eq_error {tokens : List Token} {cause : Malformation}
    (hparse : parse tokens = .error cause) :
    tokens = [] ∧ cause = .empty ∨ Progress.start.readAll tokens = .error cause ∨
      ∃ last, Progress.start.readAll tokens = .ok last ∧ last.finish = .error cause := by
  rw [parse] at hparse
  split at hparse
  · rename_i hempty
    cases hparse
    exact .inl ⟨List.isEmpty_iff.mp hempty, rfl⟩
  · split at hparse
    · rename_i found hread
      cases hparse
      exact .inr (.inl hread)
    · rename_i last hread
      exact .inr (.inr ⟨last, hread, hparse⟩)

/-- The errors at the end of the tokens. -/
def endingErrors : List Malformation :=
  [.empty, .unexpectedEnd, .missingClose]

theorem viable_of_parse_eq_error {tokens : List Token} {cause : Malformation}
    (hparse : parse tokens = .error cause)
    (hread : Progress.start.readAll tokens ≠ .error cause) :
    Viable tokens ∧ cause ∈ endingErrors := by
  rcases parse_eq_error hparse with ⟨rfl, rfl⟩ | hfails | ⟨last, hlast, hfinish⟩
  · exact ⟨viable_iff.mpr ⟨_, rfl⟩, List.mem_cons_self⟩
  · exact absurd hfails hread
  · refine ⟨viable_iff.mpr ⟨last, hlast⟩, ?_⟩
    rcases Progress.finish_eq_error hfinish with rfl | rfl <;> simp [endingErrors]

/-- The token at which reading fails is the first that leaves no hope for a formula. -/
theorem exists_hopeless_token {tokens : List Token} {cause : Malformation}
    (hread : Progress.start.readAll tokens = .error cause) :
    ∃ k token, tokens[k]? = some token ∧ cause.Blames token ∧
      (∀ j ≤ k, Viable (tokens.take j)) ∧ ¬Viable (tokens.take (k + 1)) ∧
      ∀ after, parse (tokens.take (k + 1) ++ after) = .error cause := by
  obtain ⟨before, token, after, state, rfl, hbefore, hfails⟩ :=
    Progress.exists_token_of_readAll_eq_error hread
  have hshort : (before ++ token :: after).take before.length = before :=
    List.take_left
  have hlong : (before ++ token :: after).take (before.length + 1) = before ++ [token] := by
    rw [List.take_length_add_append]
    rfl
  have herror : Progress.start.readAll (before ++ [token]) = .error cause := by
    rw [Progress.readAll_append, hbefore]
    change state.readAll [token] = _
    rw [Progress.readAll, hfails]
  refine ⟨before.length, token, by simp, Progress.blames_of_read_eq_error hfails, ?_, ?_, ?_⟩
  · intro j hj
    rw [← Nat.min_eq_left hj, ← List.take_take, hshort]
    exact (viable_iff.mpr ⟨state, hbefore⟩).take j
  · rw [hlong, viable_iff]
    rintro ⟨progress, hprogress⟩
    cases herror.symm.trans hprogress
  · intro rest
    rw [hlong]
    exact parse_append_of_readAll_eq_error herror rest

/-- Rejected tokens are the start of a formula and the error says that they end too early,
or there is a first token with which they are no such start.  The error is about this
token, and it is the same whatever follows it.  Every formula with these tokens is reported
as malformed. -/
theorem parse_fails_at_the_first_hopeless_token {tokens : List Token} {cause : Malformation}
    (hparse : parse tokens = .error cause) :
    (Viable tokens ∧ cause ∈ endingErrors ∧
        cause.message ∈ ["formula is empty", "unexpected end of formula",
          "unbalanced parentheses: missing ')'"] ∨
      ∃ k token, tokens[k]? = some token ∧ cause.Blames token ∧
        (∀ j ≤ k, Viable (tokens.take j)) ∧ ¬Viable (tokens.take (k + 1)) ∧
        ∀ after, parse (tokens.take (k + 1) ++ after) = .error cause) ∧
    (ScoringError.formula (.malformed cause)).kind = "MalformedFormula" ∧
    ∀ (source : String) (symbols : SymbolTable), tokenize source = .ok tokens →
      evaluate source symbols = .error (.malformed cause) := by
  refine ⟨?_, rfl, ?_⟩
  · by_cases hread : Progress.start.readAll tokens = .error cause
    · exact .inr (exists_hopeless_token hread)
    · obtain ⟨hviable, hmem⟩ := viable_of_parse_eq_error hparse hread
      exact .inl ⟨hviable, hmem, List.mem_map_of_mem (f := Malformation.message) hmem⟩
  · intro source symbols htokens
    simp only [evaluate, compile, htokens, hparse]

/-- The tokens of `(a b +`, of which the second name is one too many. -/
def crowdedTokens : List Token :=
  [.openParen, .identifier "a", .identifier "b", .plus]

theorem crowdedTokens_fail_at_the_second_name :
    parse crowdedTokens = .error (.expectedClose (.identifier "b")) ∧
      Viable (crowdedTokens.take 2) ∧ ¬Viable (crowdedTokens.take 3) ∧
      ∀ after, parse (crowdedTokens.take 3 ++ after) =
        .error (.expectedClose (.identifier "b")) := by
  have hparse : parse crowdedTokens = .error (.expectedClose (.identifier "b")) := rfl
  obtain ⟨⟨-, hmem, -⟩ | ⟨k, token, htoken, hblames, hviable, hhopeless, herror⟩, -⟩ :=
    parse_fails_at_the_first_hopeless_token hparse
  · simp [endingErrors] at hmem
  · obtain rfl : Token.identifier "b" = token := by
      simpa [Malformation.Blames] using hblames
    have hplace : k = 2 := by
      rcases k with _ | _ | _ | _ | k <;> simp_all [crowdedTokens]
    subst hplace
    exact ⟨hparse, hviable 2 (Nat.le_refl 2), hhopeless, herror⟩

end TournamentScoring.Formula
