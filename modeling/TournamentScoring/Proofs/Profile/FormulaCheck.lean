import Mathlib
import TournamentScoring.Profile.Validation
import TournamentScoring.Proofs.Scoring.FormulaValue

/-!
# The check of a formula and its evaluation

A profile is checked without an input, and a formula is evaluated with one.  The
two agree: a formula that passes the check is never malformed and misses no
symbol, and a formula that fails it gives no score for any input.
-/

namespace TournamentScoring

open TournamentScoring.Text

/-! ## Issues of the formula -/

/-- Whether an issue is about the formula and not about the structure. -/
def Issue.concernsFormula : Issue → Bool
  | emptyFormula => true
  | formulaTooLong _ _ => true
  | malformedFormula _ => true
  | unknownSymbol _ => true
  | _ => false

@[simp]
theorem filter_idIssues (declaration : Declaration) (id : String) :
    (idIssues declaration id).filter Issue.concernsFormula = [] := by
  unfold idIssues
  split
  · rfl
  · split <;> rfl

@[simp]
theorem filter_repetitionIssues (declaration : Declaration)
    (earlier : List String) (id : String) :
    (repetitionIssues declaration earlier id).filter
      Issue.concernsFormula = [] := by
  unfold repetitionIssues
  split <;> rfl

@[simp]
theorem filter_bonusIssues (bonus : CooperativeBonus) (part : String) :
    (bonus.issues part).filter Issue.concernsFormula = [] := by
  unfold CooperativeBonus.issues
  split <;> split <;> rfl

@[simp]
theorem filter_kindIssues (kind : PartKind) (part : String) :
    (kind.issues part).filter Issue.concernsFormula = [] := by
  unfold PartKind.issues
  split <;> split <;> rfl

@[simp]
theorem filter_onePartIssues (part : Part) (earlier : List String) :
    (part.issues earlier).filter Issue.concernsFormula = [] := by
  unfold Part.issues
  cases part.cooperativeBonus with
  | none => simp
  | some bonus => simp

theorem filter_partIssues (earlier : List String) (parts : List Part) :
    (partIssues earlier parts).filter Issue.concernsFormula = [] := by
  induction parts generalizing earlier with
  | nil => rfl
  | cons part rest ih => simp [partIssues, ih]

theorem filter_penaltyIssues (earlier : List String)
    (rules : List PenaltyRule) :
    (penaltyIssues earlier rules).filter Issue.concernsFormula = [] := by
  induction rules generalizing earlier with
  | nil => rfl
  | cons rule rest ih => simp [penaltyIssues, PenaltyRule.issues, ih]

theorem filter_structureIssues (profile : Profile) :
    profile.structureIssues.filter Issue.concernsFormula = [] := by
  unfold Profile.structureIssues
  rw [List.filter_append, List.filter_append, List.filter_append,
    filter_partIssues, filter_penaltyIssues]
  split <;> split <;> rfl

/-! ## What the check finds -/

namespace Profile

/-- The four things that the check of a formula can find. -/
theorem formulaIssues_cases (profile : Profile) (limit : Nat) :
    (isBlankText profile.totalFormula = true ∧
      profile.formulaIssues limit = [.emptyFormula]) ∨
    (limit < profile.totalFormula.length ∧
      profile.formulaIssues limit =
        [.formulaTooLong profile.totalFormula.length limit]) ∨
    (¬limit < profile.totalFormula.length ∧
      ∃ cause, Formula.compile profile.totalFormula = .error cause ∧
        profile.formulaIssues limit = [.malformedFormula cause]) ∨
    (¬limit < profile.totalFormula.length ∧
      ∃ expression, Formula.compile profile.totalFormula = .ok expression ∧
        profile.formulaIssues limit =
          (expression.symbols.filter fun name =>
            !profile.formulaSymbols.contains name).map
              Issue.unknownSymbol) := by
  unfold formulaIssues
  split
  · rename_i hblank
    exact Or.inl ⟨hblank, rfl⟩
  · split
    · rename_i hlength
      exact Or.inr (Or.inl ⟨hlength, rfl⟩)
    · rename_i hlength
      cases hcompile : Formula.compile profile.totalFormula with
      | error cause => exact Or.inr (Or.inr (Or.inl ⟨hlength, cause, rfl, rfl⟩))
      | ok expression =>
        exact Or.inr (Or.inr (Or.inr ⟨hlength, expression, rfl, rfl⟩))

theorem concernsFormula_of_mem_formulaIssues {profile : Profile}
    {limit : Nat} {issue : Issue}
    (hissue : issue ∈ profile.formulaIssues limit) :
    issue.concernsFormula = true := by
  rcases profile.formulaIssues_cases limit with
    ⟨_, hissues⟩ | ⟨_, hissues⟩ | ⟨_, cause, _, hissues⟩ |
      ⟨_, expression, _, hissues⟩
  · rw [hissues, List.mem_singleton] at hissue
    rw [hissue, Issue.concernsFormula]
  · rw [hissues, List.mem_singleton] at hissue
    rw [hissue, Issue.concernsFormula]
  · rw [hissues, List.mem_singleton] at hissue
    rw [hissue, Issue.concernsFormula]
  · rw [hissues] at hissue
    obtain ⟨name, _, hname⟩ := List.mem_map.mp hissue
    rw [← hname, Issue.concernsFormula]

/-- The issues of a profile that are about its formula are the ones that the
check of the formula finds. -/
theorem mem_formulaIssues_iff (profile : Profile) (limit : Nat)
    (issue : Issue) :
    issue ∈ profile.formulaIssues limit ↔
      issue ∈ profile.issues limit ∧ issue.concernsFormula = true := by
  have hstructure : ¬(issue ∈ profile.structureIssues ∧
      issue.concernsFormula = true) := by
    rw [← List.mem_filter, filter_structureIssues]
    exact List.not_mem_nil
  rw [issues, List.mem_append]
  constructor
  · intro hissue
    exact ⟨Or.inr hissue, concernsFormula_of_mem_formulaIssues hissue⟩
  · rintro ⟨hissue | hissue, hconcerns⟩
    · exact absurd ⟨hissue, hconcerns⟩ hstructure
    · exact hissue

/-- An unknown symbol is reported exactly where a formula that is read mentions a
name that the profile does not advertise. -/
theorem unknownSymbol_mem_formulaIssues {profile : Profile} {limit : Nat}
    {expression : Formula.Expression}
    (hlength : ¬limit < profile.totalFormula.length)
    (hcompile : Formula.compile profile.totalFormula = .ok expression)
    {name : String} (hname : name ∈ expression.names)
    (hunknown : name ∉ profile.formulaSymbols) :
    .unknownSymbol name ∈ profile.formulaIssues limit := by
  have hblank : isBlankText profile.totalFormula ≠ true := by
    intro hblank
    rw [Formula.compile_of_isBlankText hblank] at hcompile
    cases hcompile
  rw [formulaIssues, if_neg hblank, if_neg hlength, hcompile]
  refine List.mem_map.mpr ⟨name, List.mem_filter.mpr ⟨?_, ?_⟩, rfl⟩
  · exact (expression.mem_symbols_iff name).mpr hname
  · simpa using hunknown

/-- A formula without issues is read and mentions advertised names only. -/
theorem of_formulaIssues_eq_nil {profile : Profile} {limit : Nat}
    (hissues : profile.formulaIssues limit = []) :
    ¬limit < profile.totalFormula.length ∧
      ∃ expression, Formula.compile profile.totalFormula = .ok expression ∧
        ∀ name ∈ expression.names, name ∈ profile.formulaSymbols := by
  rcases profile.formulaIssues_cases limit with
    ⟨_, hfound⟩ | ⟨_, hfound⟩ | ⟨_, cause, _, hfound⟩ |
      ⟨hlength, expression, hcompile, _⟩
  · cases hfound.symm.trans hissues
  · cases hfound.symm.trans hissues
  · cases hfound.symm.trans hissues
  · refine ⟨hlength, expression, hcompile, fun name hname => ?_⟩
    refine Classical.byContradiction fun hunknown => ?_
    have hmem := unknownSymbol_mem_formulaIssues hlength hcompile hname hunknown
    rw [hissues] at hmem
    cases hmem

end Profile

/-! ## What an evaluation does with the formula -/

section Scoring

variable {profile : Profile} {input : ScoreInput} {settings : EngineSettings}

/-- A formula's error comes from an evaluation on an input without errors. -/
theorem scoreMatch_formula_error {failure : EvaluationFailure}
    (hfailure : profile.scoreMatch input settings = .error failure)
    {cause : Formula.FormulaError}
    (hcause : .formula cause ∈ failure.errors) :
    profile.inputErrors input = [] ∧
      evaluateFormula profile.totalFormula (profile.symbols input) settings =
        .error cause := by
  by_cases herrors : profile.inputErrors input = []
  · refine ⟨herrors, ?_⟩
    rw [scoreMatch_of_inputErrors_eq_nil profile input settings herrors]
      at hfailure
    split at hfailure
    · rename_i found hfound
      cases hfailure
      have hsame : ScoringError.formula cause = .formula found :=
        List.mem_singleton.mp hcause
      cases hsame
      exact hfound
    · cases hfailure
  · rw [scoreMatch_of_inputErrors_ne_nil profile input settings herrors]
      at hfailure
    cases hfailure
    exact absurd (kind_formula_mem cause)
      (kind_not_mem_of_mem_inputErrors hcause)

theorem scoreMatch_of_evaluateFormula_eq_error {cause : Formula.FormulaError}
    (herrors : profile.inputErrors input = [])
    (hformula : evaluateFormula profile.totalFormula (profile.symbols input)
      settings = .error cause) :
    profile.scoreMatch input settings = .error ⟨[.formula cause]⟩ := by
  rw [scoreMatch_of_inputErrors_eq_nil profile input settings herrors, hformula]

/-- An issue other than an unknown symbol makes the formula malformed. -/
theorem evaluateFormula_of_mem_formulaIssues {issue : Issue}
    (hissue : issue ∈ profile.formulaIssues settings.maxFormulaLength)
    (hsymbol : ∀ name, issue ≠ .unknownSymbol name)
    (symbols : Formula.SymbolTable) :
    ∃ cause, evaluateFormula profile.totalFormula symbols settings =
      .error (.malformed cause) := by
  rcases profile.formulaIssues_cases settings.maxFormulaLength with
    ⟨hblank, _⟩ | ⟨hlength, _⟩ | ⟨hlength, cause, hcompile, _⟩ |
      ⟨_, expression, _, hissues⟩
  · exact evaluateFormula_of_isBlankText hblank
  · exact ⟨_, evaluateFormula_of_length_lt hlength⟩
  · exact ⟨_, evaluateFormula_of_compile_eq_error hlength hcompile⟩
  · rw [hissues] at hissue
    obtain ⟨name, _, hname⟩ := List.mem_map.mp hissue
    exact absurd hname.symm (hsymbol name)

/-- A formula that fails its check has no value for any input. -/
theorem evaluateFormula_ne_ok (herrors : profile.inputErrors input = [])
    (hissues : profile.formulaIssues settings.maxFormulaLength ≠ [])
    (value : Float) :
    evaluateFormula profile.totalFormula (profile.symbols input) settings ≠
      .ok value := by
  intro hvalue
  obtain ⟨expression, hcompile, hevaluate, _⟩ := evaluateFormula_eq_ok hvalue
  obtain ⟨issue, hissue⟩ := List.exists_mem_of_ne_nil _ hissues
  by_cases hsymbol : ∃ name, issue = .unknownSymbol name
  · obtain ⟨name, rfl⟩ := hsymbol
    rcases profile.formulaIssues_cases settings.maxFormulaLength with
      ⟨_, hfound⟩ | ⟨_, hfound⟩ | ⟨_, cause, _, hfound⟩ |
        ⟨_, found, hagain, hfound⟩
    · simp [hfound] at hissue
    · simp [hfound] at hissue
    · simp [hfound] at hissue
    · cases hcompile.symm.trans hagain
      rw [hfound] at hissue
      obtain ⟨other, hother, hname⟩ := List.mem_map.mp hissue
      cases hname
      obtain ⟨hmem, hunknown⟩ := List.mem_filter.mp hother
      have hkey := Formula.Expression.mem_keys_of_evaluate_eq_ok hevaluate
        ((expression.mem_symbols_iff name).mp hmem)
      rw [mem_keys_symbols_iff herrors] at hkey
      simp [hkey] at hunknown
  · obtain ⟨cause, hcause⟩ := evaluateFormula_of_mem_formulaIssues hissue
      (not_exists.mp hsymbol) (profile.symbols input)
    cases hvalue.symm.trans hcause

/-- A formula without issues is never malformed and misses no symbol. -/
theorem kind_of_formulaIssues_eq_nil
    (hissues : profile.formulaIssues settings.maxFormulaLength = [])
    {failure : EvaluationFailure}
    (hfailure : profile.scoreMatch input settings = .error failure)
    {error : ScoringError} (herror : error ∈ failure.errors) :
    error.kind ≠ "MalformedFormula" ∧ error.kind ≠ "UnknownSymbol" := by
  obtain ⟨hlength, expression, hcompile, hnames⟩ :=
    Profile.of_formulaIssues_eq_nil hissues
  cases error with
  | missingPartInput part => simp [ScoringError.kind]
  | invalidPartValue part fault => simp [ScoringError.kind]
  | groupSizeMismatch part required supplied => simp [ScoringError.kind]
  | unknownPenaltyId id => simp [ScoringError.kind]
  | formula cause =>
    obtain ⟨herrors, hformula⟩ := scoreMatch_formula_error hfailure herror
    cases cause with
    | malformed cause =>
      exact absurd hformula
        (evaluateFormula_ne_malformed hlength hcompile cause)
    | unknownSymbol name =>
      obtain ⟨_, found, hagain, hname, hkey⟩ :=
        evaluateFormula_eq_unknownSymbol hformula
      cases hcompile.symm.trans hagain
      exact absurd ((mem_keys_symbols_iff herrors name).mpr
        (hnames name hname)) hkey
    | divisionByZero => simp [ScoringError.kind]
    | nonFiniteResult => simp [ScoringError.kind]

/-- A formula with issues gives no score, whatever the input is. -/
theorem exists_failure_of_formulaIssues_ne_nil
    (hissues : profile.formulaIssues settings.maxFormulaLength ≠ []) :
    ∃ failure, profile.scoreMatch input settings = .error failure := by
  by_cases herrors : profile.inputErrors input = []
  · cases hformula : evaluateFormula profile.totalFormula
        (profile.symbols input) settings with
    | ok value =>
      exact absurd hformula (evaluateFormula_ne_ok herrors hissues value)
    | error cause =>
      exact ⟨_, scoreMatch_of_evaluateFormula_eq_error herrors hformula⟩
  · exact ⟨_, scoreMatch_of_inputErrors_ne_nil profile input settings herrors⟩

/-- Every symbol that an evaluation misses is an issue of the formula. -/
theorem unknownSymbol_mem_of_scoreMatch {failure : EvaluationFailure}
    {name : String}
    (hfailure : profile.scoreMatch input settings = .error failure)
    (hname : .formula (.unknownSymbol name) ∈ failure.errors) :
    .unknownSymbol name ∈ profile.formulaIssues settings.maxFormulaLength := by
  obtain ⟨herrors, hformula⟩ := scoreMatch_formula_error hfailure hname
  obtain ⟨hlength, expression, hcompile, hmem, hkey⟩ :=
    evaluateFormula_eq_unknownSymbol hformula
  rw [mem_keys_symbols_iff herrors] at hkey
  exact Profile.unknownSymbol_mem_formulaIssues hlength hcompile hmem hkey

end Scoring

/-- The check of a profile and the evaluation of its formula agree.  Without an
issue of the formula no evaluation finds it malformed or misses a symbol; with
one no input has a score, and an input without errors gets a malformed formula
unless the issue is an unknown symbol; and every symbol that an evaluation misses
is reported by the check. -/
theorem formula_check_agrees_with_scoring (profile : Profile)
    (input : ScoreInput) (settings : EngineSettings) :
    ((∀ issue ∈ profile.issues settings.maxFormulaLength,
        issue.concernsFormula = false) →
      ∀ failure, profile.scoreMatch input settings = .error failure →
        ∀ error ∈ failure.errors,
          error.kind ≠ "MalformedFormula" ∧ error.kind ≠ "UnknownSymbol") ∧
    (∀ issue ∈ profile.issues settings.maxFormulaLength,
      issue.concernsFormula = true →
        (∃ failure, profile.scoreMatch input settings = .error failure) ∧
        (profile.inputErrors input = [] →
          (∀ name, issue ≠ .unknownSymbol name) →
            ∃ cause, profile.scoreMatch input settings =
              .error ⟨[.formula (.malformed cause)]⟩)) ∧
    (∀ failure name, profile.scoreMatch input settings = .error failure →
      .formula (.unknownSymbol name) ∈ failure.errors →
        .unknownSymbol name ∈
          profile.issues settings.maxFormulaLength) := by
  refine ⟨?_, ?_, ?_⟩
  · intro hissues failure hfailure error herror
    refine kind_of_formulaIssues_eq_nil ?_ hfailure herror
    refine List.eq_nil_iff_forall_not_mem.mpr fun issue hissue => ?_
    obtain ⟨hmem, hconcerns⟩ := (profile.mem_formulaIssues_iff _ _).mp hissue
    rw [hissues issue hmem] at hconcerns
    cases hconcerns
  · intro issue hissue hconcerns
    have hmem : issue ∈ profile.formulaIssues settings.maxFormulaLength :=
      (profile.mem_formulaIssues_iff _ _).mpr ⟨hissue, hconcerns⟩
    refine ⟨exists_failure_of_formulaIssues_ne_nil (List.ne_nil_of_mem hmem),
      fun herrors hsymbol => ?_⟩
    obtain ⟨cause, hcause⟩ := evaluateFormula_of_mem_formulaIssues hmem
      hsymbol (profile.symbols input)
    exact ⟨cause, scoreMatch_of_evaluateFormula_eq_error herrors hcause⟩
  · intro failure name hfailure hname
    exact ((profile.mem_formulaIssues_iff _ _).mp
      (unknownSymbol_mem_of_scoreMatch hfailure hname)).1

/-- One count and a formula over it. -/
def countProfile (formula : String) : Profile where
  version := 1
  parts := [⟨"auto", "Auto", none, none, .number 5.0 none⟩]
  penalties := []
  totalFormula := formula
  notes := none

def zeroInput : ScoreInput where
  values := KeyedTable.empty.insert "auto" (.number 0.0)
  penalties := KeyedTable.empty
  cooperative := KeyedTable.empty

/-- A misspelt name fails both the check and the evaluation; a formula that only
divides by zero passes the check, and its failure is of another kind. -/
theorem countProfile_check_and_scoring :
    (Issue.unknownSymbol "bonus" ∈ (countProfile "auto + bonus").issues 2000 ∧
      ∃ failure, (countProfile "auto + bonus").scoreMatch zeroInput
        EngineSettings.default = .error failure) ∧
    (∀ issue ∈ (countProfile "auto / auto").issues 2000,
        issue.concernsFormula = false) ∧
      (countProfile "auto / auto").scoreMatch zeroInput
          EngineSettings.default =
        .error ⟨[.formula .divisionByZero]⟩ ∧
      (ScoringError.formula .divisionByZero).kind ≠ "UnknownSymbol" := by
  have hmisspelt :
      Issue.unknownSymbol "bonus" ∈ (countProfile "auto + bonus").issues 2000 := by
    decide +kernel
  have hchecked : ∀ issue ∈ (countProfile "auto / auto").issues 2000,
      issue.concernsFormula = false := by
    decide +kernel
  have hcompile : Formula.compile "auto / auto" =
      .ok (.binary .divide (.symbol "auto") (.symbol "auto")) := by
    cbv
  have hdivision : (countProfile "auto / auto").scoreMatch zeroInput
      EngineSettings.default = .error ⟨[.formula .divisionByZero]⟩ := by
    refine scoreMatch_of_evaluateFormula_eq_error (by rfl) ?_
    exact evaluateFormula_of_compile_eq_ok (by decide) hcompile
  have hmisspeltFails := (formula_check_agrees_with_scoring
    (countProfile "auto + bonus") zeroInput EngineSettings.default).2.1
      _ hmisspelt rfl
  have hotherKind := (formula_check_agrees_with_scoring
    (countProfile "auto / auto") zeroInput EngineSettings.default).1
      hchecked _ hdivision _ (List.mem_singleton_self _)
  exact ⟨⟨hmisspelt, hmisspeltFails.1⟩, hchecked, hdivision, hotherKind.2⟩

end TournamentScoring
