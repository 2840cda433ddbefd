import TournamentScoring.Proofs.KeyedTable
import TournamentScoring.Proofs.Scoring.Bonus
import TournamentScoring.Scoring.Match

/-!
# The errors of an input

Everything that can be wrong with an input is stated here as one list, part by
part and without the order in which a pass discovers it.  The pass over the parts
is proved to collect exactly this list and to score exactly the parts without a
fault, so a failure reports either all errors of the input or the one failure of
the formula.
-/

namespace TournamentScoring

/-- The errors of a result; a success has none. -/
def errorsOf {α : Type} : Except (List ScoringError) α → List ScoringError
  | .ok _ => []
  | .error causes => causes

namespace Part

/-- The error of a part whose id is no key among the values. -/
def missingErrors (part : Part) (input : ScoreInput) : List ScoringError :=
  if part.id ∈ input.values.keys then [] else [.missingPartInput part.id]

/-- The errors of the group of a part with a bonus. -/
def groupErrors (part : Part) (input : ScoreInput) : List ScoringError :=
  match part.cooperativeBonus with
  | none => []
  | some bonus => errorsOf (bonus.resolve part (part.group input))

/-- The error of the own value, if it is present and refused. -/
def valueErrors (part : Part) (input : ScoreInput) : List ScoringError :=
  match input.values.get? part.id with
  | none => []
  | some raw =>
    match part.score raw with
    | .ok _ => []
    | .error cause => [cause]

/-- The entry of a part in the breakdown, where nothing is wrong with it. -/
def entry? (part : Part) (input : ScoreInput) : Option PartScore :=
  match part.bonusPoints input, part.ownPoints input with
  | .ok bonus, some (.ok points) => some (part.scored points bonus)
  | _, _ => none

end Part

/-- The error of an occurrence that belongs to no rule. -/
def occurrenceErrors (rules : List PenaltyRule) (id : String) :
    List ScoringError :=
  if id ∈ rules.map PenaltyRule.id then [] else [.unknownPenaltyId id]

/-- Every error of an input: the missing values, then each part with its group
before its own value, then the unknown penalties in key order. -/
def Profile.inputErrors (profile : Profile) (input : ScoreInput) :
    List ScoringError :=
  profile.parts.flatMap (fun part => part.missingErrors input) ++
    profile.parts.flatMap
      (fun part => part.groupErrors input ++ part.valueErrors input) ++
    input.penalties.keys.flatMap (occurrenceErrors profile.penalties)

/-! ## One part -/

theorem errorsOf_bonusPoints (part : Part) (input : ScoreInput) :
    errorsOf (part.bonusPoints input) = part.groupErrors input := by
  rw [Part.bonusPoints, Part.groupErrors]
  cases part.cooperativeBonus with
  | none => rfl
  | some bonus => rfl

theorem valueErrors_eq (part : Part) (input : ScoreInput) :
    part.valueErrors input =
      match part.ownPoints input with
      | some (.error cause) => [cause]
      | _ => [] := by
  rw [Part.valueErrors, Part.ownPoints]
  cases input.values.get? part.id with
  | none => rfl
  | some raw =>
    simp only [Option.map_some]
    cases part.score raw with
    | ok points => rfl
    | error cause => rfl

/-- What one visit adds: the errors of the part and, without any fault, its
entry in the breakdown. -/
theorem visit_eq (input : ScoreInput) (pass : PartPass) (part : Part) :
    pass.visit input part =
      ⟨pass.errors ++ (part.groupErrors input ++ part.valueErrors input),
        pass.scores ++ (part.entry? input).toList⟩ := by
  rw [← errorsOf_bonusPoints, valueErrors_eq, Part.entry?, PartPass.visit]
  cases part.bonusPoints input with
  | ok bonus =>
    cases part.ownPoints input with
    | none => simp [errorsOf]
    | some points =>
      cases points with
      | ok points => simp [errorsOf, PartPass.accept]
      | error cause => simp [errorsOf, PartPass.refuse]
  | error causes =>
    cases part.ownPoints input with
    | none => simp [errorsOf, PartPass.refuse]
    | some points =>
      cases points with
      | ok points => simp [errorsOf, PartPass.refuse]
      | error cause => simp [errorsOf, PartPass.refuse]

/-! ## All parts -/

theorem foldl_visit_eq (input : ScoreInput) (parts : List Part)
    (pass : PartPass) :
    parts.foldl (PartPass.visit input) pass =
      ⟨pass.errors ++ parts.flatMap
          (fun part => part.groupErrors input ++ part.valueErrors input),
        pass.scores ++ parts.filterMap (fun part => part.entry? input)⟩ := by
  induction parts generalizing pass with
  | nil => simp
  | cons part rest ih =>
    rw [List.foldl_cons, ih, visit_eq]
    cases hentry : part.entry? input with
    | none => simp [hentry]
    | some score => simp [hentry]

theorem contains_eq_decide_mem_keys {α : Type} (table : KeyedTable α)
    (key : String) : table.contains key = decide (key ∈ table.keys) := by
  rw [KeyedTable.contains, Bool.eq_iff_iff, decide_eq_true_iff,
    KeyedTable.mem_keys_iff_isSome]

theorem missingInputs_eq (profile : Profile) (input : ScoreInput) :
    profile.missingInputs input =
      profile.parts.flatMap fun part => part.missingErrors input := by
  rw [Profile.missingInputs]
  induction profile.parts with
  | nil => rfl
  | cons part rest ih =>
    rw [List.flatMap_cons, ← ih, List.filter_cons, contains_eq_decide_mem_keys,
      Part.missingErrors]
    by_cases hmem : part.id ∈ input.values.keys
    · simp [hmem]
    · simp [hmem]

theorem unknownPenalties_eq (rules : List PenaltyRule)
    (occurrences : KeyedTable UInt32) :
    unknownPenalties rules occurrences =
      occurrences.keys.flatMap (occurrenceErrors rules) := by
  have hany : ∀ id : String,
      (rules.any fun rule => rule.id == id) =
        decide (id ∈ rules.map PenaltyRule.id) := by
    intro id
    rw [Bool.eq_iff_iff, List.any_eq_true, decide_eq_true_iff, List.mem_map]
    simp only [beq_iff_eq]
  rw [unknownPenalties]
  induction occurrences.keys with
  | nil => rfl
  | cons id rest ih =>
    rw [List.flatMap_cons, ← ih, List.filter_cons, hany, occurrenceErrors]
    by_cases hmem : id ∈ rules.map PenaltyRule.id
    · simp [hmem]
    · simp [hmem]

/-- The pass over all parts, in closed form. -/
theorem partPass_eq (profile : Profile) (input : ScoreInput) :
    profile.partPass input =
      ⟨profile.parts.flatMap (fun part => part.missingErrors input) ++
          profile.parts.flatMap
            (fun part => part.groupErrors input ++ part.valueErrors input),
        profile.parts.filterMap fun part => part.entry? input⟩ := by
  rw [Profile.partPass, foldl_visit_eq, missingInputs_eq]
  rfl

theorem inputErrors_eq (profile : Profile) (input : ScoreInput) :
    profile.inputErrors input =
      (profile.partPass input).errors ++
        unknownPenalties profile.penalties input.penalties := by
  rw [Profile.inputErrors, partPass_eq, unknownPenalties_eq]

/-! ## The outcome -/

theorem scoreMatch_of_inputErrors_ne_nil (profile : Profile)
    (input : ScoreInput) (settings : EngineSettings)
    (herrors : profile.inputErrors input ≠ []) :
    profile.scoreMatch input settings =
      .error ⟨profile.inputErrors input⟩ := by
  rw [inputErrors_eq] at herrors ⊢
  rw [Profile.scoreMatch, aggregatePenalties]
  cases hunknown : unknownPenalties profile.penalties input.penalties with
  | cons first rest => rfl
  | nil =>
    rw [hunknown, List.append_nil] at herrors
    rw [List.append_nil]
    have hpass : (!(profile.partPass input).errors.isEmpty) = true := by
      simpa using herrors
    exact if_pos hpass

/-- The breakdown of an input without errors, up to the formula's value. -/
def Profile.breakdown (profile : Profile) (input : ScoreInput)
    (formulaValue : Float) : ScoreBreakdown where
  parts := profile.parts.filterMap fun part => part.entry? input
  penalties := profile.penalties.map fun rule => rule.line input.penalties
  penaltyTotals :=
    PenaltyTotals.ofLines
      (profile.penalties.map fun rule => rule.line input.penalties)
  formulaValue := formulaValue

/-- The symbols that the formula sees for an input without errors. -/
def Profile.symbols (profile : Profile) (input : ScoreInput) :
    Formula.SymbolTable :=
  symbolTable (profile.parts.filterMap fun part => part.entry? input)
    (PenaltyTotals.ofLines
      (profile.penalties.map fun rule => rule.line input.penalties))

/-- Only an input without errors reaches the formula, and then the formula alone
decides. -/
theorem scoreMatch_of_inputErrors_eq_nil (profile : Profile)
    (input : ScoreInput) (settings : EngineSettings)
    (herrors : profile.inputErrors input = []) :
    profile.scoreMatch input settings =
      match evaluateFormula profile.totalFormula (profile.symbols input)
          settings with
      | .error cause => .error ⟨[.formula cause]⟩
      | .ok formulaValue =>
        .ok ⟨finalScore formulaValue settings,
          profile.breakdown input formulaValue⟩ := by
  rw [inputErrors_eq] at herrors
  obtain ⟨hpass, hunknown⟩ := List.append_eq_nil_iff.mp herrors
  have hscores : (profile.partPass input).scores =
      profile.parts.filterMap fun part => part.entry? input := by
    rw [partPass_eq]
  rw [Profile.scoreMatch, aggregatePenalties, hunknown, Profile.symbols]
  simp only [hpass, hscores, List.isEmpty_nil, Bool.not_true,
    Bool.false_eq_true, if_false]
  cases evaluateFormula profile.totalFormula _ settings with
  | error cause => rfl
  | ok formulaValue => rfl

/-! ## Kinds of errors -/

/-- The kinds of the errors that a formula can end with. -/
def formulaKinds : List String :=
  ["MalformedFormula", "UnknownSymbol", "DivisionByZero", "NonFiniteResult"]

theorem kind_formula_mem (cause : Formula.FormulaError) :
    (ScoringError.formula cause).kind ∈ formulaKinds := by
  cases cause with
  | malformed cause => simp [ScoringError.kind, formulaKinds]
  | unknownSymbol name => simp [ScoringError.kind, formulaKinds]
  | divisionByZero => simp [ScoringError.kind, formulaKinds]
  | nonFiniteResult => simp [ScoringError.kind, formulaKinds]

theorem Part.Refuses.kind_not_mem {part : Part} {error : ScoringError}
    (hrefuses : part.Refuses error) : error.kind ∉ formulaKinds := by
  obtain ⟨fault, rfl⟩ := hrefuses
  simp [ScoringError.kind, formulaKinds]

theorem kind_not_mem_of_mem_groupErrors {part : Part} {input : ScoreInput}
    {error : ScoringError} (herror : error ∈ part.groupErrors input) :
    error.kind ∉ formulaKinds := by
  rw [Part.groupErrors] at herror
  cases hbonus : part.cooperativeBonus with
  | none => simp [hbonus] at herror
  | some bonus =>
    simp only [hbonus] at herror
    cases hresolve : bonus.resolve part (part.group input) with
    | ok points => simp [hresolve, errorsOf] at herror
    | error causes =>
      rw [hresolve, errorsOf] at herror
      rcases CooperativeBonus.eq_sizeMismatch_or_refuses hresolve herror with
        hsize | hrefuses
      · rw [hsize]
        simp [ScoringError.kind, formulaKinds]
      · exact hrefuses.kind_not_mem

theorem kind_not_mem_of_mem_valueErrors {part : Part} {input : ScoreInput}
    {error : ScoringError} (herror : error ∈ part.valueErrors input) :
    error.kind ∉ formulaKinds := by
  rw [Part.valueErrors] at herror
  cases hget : input.values.get? part.id with
  | none => simp [hget] at herror
  | some raw =>
    simp only [hget] at herror
    cases hscore : part.score raw with
    | ok points => simp [hscore] at herror
    | error cause =>
      have heq : error = cause := by simpa [hscore] using herror
      exact heq ▸ (Part.refuses_of_score_eq_error hscore).kind_not_mem

/-- No error of an input has the kind of a formula's error. -/
theorem kind_not_mem_of_mem_inputErrors {profile : Profile}
    {input : ScoreInput} {error : ScoringError}
    (herror : error ∈ profile.inputErrors input) :
    error.kind ∉ formulaKinds := by
  rw [Profile.inputErrors, List.mem_append, List.mem_append] at herror
  rcases herror with (hmissing | hpart) | hunknown
  · obtain ⟨part, _, hmem⟩ := List.mem_flatMap.mp hmissing
    rw [Part.missingErrors] at hmem
    split at hmem
    · cases hmem
    · rw [List.mem_singleton.mp hmem]
      simp [ScoringError.kind, formulaKinds]
  · obtain ⟨part, _, hmem⟩ := List.mem_flatMap.mp hpart
    rcases List.mem_append.mp hmem with hgroup | hvalue
    · exact kind_not_mem_of_mem_groupErrors hgroup
    · exact kind_not_mem_of_mem_valueErrors hvalue
  · obtain ⟨id, _, hmem⟩ := List.mem_flatMap.mp hunknown
    rw [occurrenceErrors] at hmem
    split at hmem
    · cases hmem
    · rw [List.mem_singleton.mp hmem]
      simp [ScoringError.kind, formulaKinds]

/-- An input with errors is refused with exactly these, whatever the formula is;
an input without errors has a score or the one error of the formula.  So a
failure is never empty and never mixes the two. -/
theorem scoreMatch_collects_input_errors (profile : Profile)
    (input : ScoreInput) (settings : EngineSettings) :
    (profile.inputErrors input ≠ [] →
      profile.scoreMatch input settings =
        .error ⟨profile.inputErrors input⟩) ∧
    (profile.inputErrors input = [] →
      (∃ score, profile.scoreMatch input settings = .ok score) ∨
        ∃ error, profile.scoreMatch input settings = .error ⟨[error]⟩ ∧
          error.kind ∈ formulaKinds) ∧
    ∀ failure, profile.scoreMatch input settings = .error failure →
      failure.errors ≠ [] ∧
        ((∀ error ∈ failure.errors, error.kind ∉ formulaKinds) ∨
          ∃ error, failure.errors = [error] ∧
            error.kind ∈ formulaKinds) := by
  have hclean : profile.inputErrors input = [] →
      (∃ score, profile.scoreMatch input settings = .ok score) ∨
        ∃ error, profile.scoreMatch input settings = .error ⟨[error]⟩ ∧
          error.kind ∈ formulaKinds := by
    intro herrors
    rw [scoreMatch_of_inputErrors_eq_nil profile input settings herrors]
    cases evaluateFormula profile.totalFormula (profile.symbols input)
        settings with
    | ok formulaValue => exact Or.inl ⟨_, rfl⟩
    | error cause => exact Or.inr ⟨_, rfl, kind_formula_mem cause⟩
  refine ⟨scoreMatch_of_inputErrors_ne_nil profile input settings, hclean, ?_⟩
  intro failure hfailure
  by_cases herrors : profile.inputErrors input = []
  · rcases hclean herrors with ⟨score, hscore⟩ | ⟨error, herror, hkind⟩
    · rw [hscore] at hfailure
      cases hfailure
    · rw [herror] at hfailure
      cases hfailure
      exact ⟨List.cons_ne_nil _ _, Or.inr ⟨error, rfl, hkind⟩⟩
  · rw [scoreMatch_of_inputErrors_ne_nil profile input settings herrors]
      at hfailure
    cases hfailure
    exact ⟨herrors, Or.inl fun error => kind_not_mem_of_mem_inputErrors⟩

/-- A count without a value and a flag for pairs. -/
def pairProfile : Profile where
  version := 1
  parts :=
    [⟨"auto", "Auto", none, none, .number 5.0 none⟩,
      ⟨"climb", "Climb", none, some ⟨2, 10, .perTeam, none⟩, .boolean 20.0⟩]
  penalties := []
  totalFormula := "auto +"
  notes := none

/-- One value is missing, one is of the wrong kind, the group is too small and
the penalty belongs to no rule. -/
def faultyInput : ScoreInput where
  values := KeyedTable.empty.insert "climb" (.number 1.0)
  penalties := KeyedTable.empty.insert "bogus" 1
  cooperative := KeyedTable.empty.insert "climb" [.flag true]

theorem pairProfile_reports_all_faults :
    pairProfile.inputErrors faultyInput ≠ [] ∧
      pairProfile.scoreMatch faultyInput EngineSettings.default =
        .error ⟨[.missingPartInput "auto", .groupSizeMismatch "climb" 2 1,
          .invalidPartValue "climb"
            (.wrongKind (.boolean 20.0) (.number 1.0)),
          .unknownPenaltyId "bogus"]⟩ :=
  have herrors : pairProfile.inputErrors faultyInput =
      [.missingPartInput "auto", .groupSizeMismatch "climb" 2 1,
        .invalidPartValue "climb" (.wrongKind (.boolean 20.0) (.number 1.0)),
        .unknownPenaltyId "bogus"] := by rfl
  have hne : pairProfile.inputErrors faultyInput ≠ [] := by simp [herrors]
  ⟨hne, herrors ▸ (scoreMatch_collects_input_errors pairProfile faultyInput
    EngineSettings.default).1 hne⟩

end TournamentScoring
