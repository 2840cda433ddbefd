import TournamentScoring.Proofs.Formula.Evaluation
import TournamentScoring.Proofs.Scoring.InputErrors

/-!
# The value of the total formula

A formula that is too long or does not compile is malformed whatever its symbols
are.  For an input without errors the symbols are exactly the names that the
profile advertises, because then every part has an entry.
-/

namespace TournamentScoring

open TournamentScoring.Text

section Evaluation

variable {source : String} {symbols : Formula.SymbolTable}
  {settings : EngineSettings}

theorem evaluateFormula_of_length_lt
    (hlength : settings.maxFormulaLength < source.length) :
    evaluateFormula source symbols settings =
      .error (.malformed
        (.tooLong source.length settings.maxFormulaLength)) := by
  rw [evaluateFormula, if_pos hlength]

theorem evaluateFormula_of_compile_eq_error {cause : Formula.Malformation}
    (hlength : ¬settings.maxFormulaLength < source.length)
    (hcompile : Formula.compile source = .error cause) :
    evaluateFormula source symbols settings = .error (.malformed cause) := by
  rw [evaluateFormula, if_neg hlength, Formula.evaluate, hcompile]

theorem evaluateFormula_of_compile_eq_ok {expression : Formula.Expression}
    (hlength : ¬settings.maxFormulaLength < source.length)
    (hcompile : Formula.compile source = .ok expression) :
    evaluateFormula source symbols settings =
      match expression.evaluate symbols with
      | .error cause => .error cause
      | .ok value =>
        if value.isFinite then .ok value else .error .nonFiniteResult := by
  have hevaluate : Formula.evaluate source symbols =
      expression.evaluate symbols := by
    rw [Formula.evaluate, hcompile]
  cases hvalue : expression.evaluate symbols with
  | error cause =>
    simp only [evaluateFormula, if_neg hlength, hevaluate, hvalue]
  | ok value =>
    simp only [evaluateFormula, if_neg hlength, hevaluate, hvalue]

theorem evaluateFormula_of_isBlankText
    (hblank : isBlankText source = true) :
    ∃ cause, evaluateFormula source symbols settings =
      .error (.malformed cause) := by
  by_cases hlength : settings.maxFormulaLength < source.length
  · exact ⟨_, evaluateFormula_of_length_lt hlength⟩
  · exact ⟨_, evaluateFormula_of_compile_eq_error hlength
      (Formula.compile_of_isBlankText hblank)⟩

/-- A formula that has a value is short enough and compiles, and its expression
has the same value. -/
theorem evaluateFormula_eq_ok {value : Float}
    (hvalue : evaluateFormula source symbols settings = .ok value) :
    ∃ expression, Formula.compile source = .ok expression ∧
      expression.evaluate symbols = .ok value ∧ value.isFinite = true := by
  by_cases hlength : settings.maxFormulaLength < source.length
  · rw [evaluateFormula_of_length_lt hlength] at hvalue
    cases hvalue
  · cases hcompile : Formula.compile source with
    | error cause =>
      rw [evaluateFormula_of_compile_eq_error hlength hcompile] at hvalue
      cases hvalue
    | ok expression =>
      rw [evaluateFormula_of_compile_eq_ok hlength hcompile] at hvalue
      refine ⟨expression, rfl, ?_⟩
      split at hvalue
      · cases hvalue
      · rename_i found hfound
        split at hvalue
        · rename_i hfinite
          cases hvalue
          exact ⟨hfound, hfinite⟩
        · cases hvalue

/-- A name that is reported as unknown stands in the expression that the formula
spells, and the table does not have it. -/
theorem evaluateFormula_eq_unknownSymbol {name : String}
    (herror : evaluateFormula source symbols settings =
      .error (.unknownSymbol name)) :
    ¬settings.maxFormulaLength < source.length ∧
      ∃ expression, Formula.compile source = .ok expression ∧
        name ∈ expression.names ∧ name ∉ symbols.keys := by
  by_cases hlength : settings.maxFormulaLength < source.length
  · rw [evaluateFormula_of_length_lt hlength] at herror
    cases herror
  · refine ⟨hlength, ?_⟩
    cases hcompile : Formula.compile source with
    | error cause =>
      rw [evaluateFormula_of_compile_eq_error hlength hcompile] at herror
      cases herror
    | ok expression =>
      rw [evaluateFormula_of_compile_eq_ok hlength hcompile] at herror
      refine ⟨expression, rfl, ?_⟩
      split at herror
      · rename_i found hfound
        exact Formula.Expression.mem_names_of_evaluate_eq_unknownSymbol
          (hfound.trans herror)
      · split at herror <;> cases herror

/-- Only the length and the text of a formula make it malformed. -/
theorem evaluateFormula_ne_malformed {expression : Formula.Expression}
    (hlength : ¬settings.maxFormulaLength < source.length)
    (hcompile : Formula.compile source = .ok expression)
    (cause : Formula.Malformation) :
    evaluateFormula source symbols settings ≠ .error (.malformed cause) := by
  rw [evaluateFormula_of_compile_eq_ok hlength hcompile]
  split
  · rename_i found hfound
    exact fun herror => expression.evaluate_ne_malformed symbols cause
      (hfound.trans herror)
  · split <;> simp

end Evaluation

/-! ## The symbols of an input without errors -/

theorem mem_keys_symbolTable (parts : List PartScore) (totals : PenaltyTotals)
    (name : String) :
    name ∈ (symbolTable parts totals).keys ↔
      name ∈ parts.map PartScore.id ∨ name ∈ penaltyNames := by
  rw [symbolTable, KeyedTable.mem_keys_ofList, List.map_append,
    List.mem_append, List.map_map]
  rfl

theorem exists_bonusPoints_eq_ok {part : Part} {input : ScoreInput}
    (hgroup : part.groupErrors input = []) :
    ∃ bonus, part.bonusPoints input = .ok bonus := by
  rw [Part.groupErrors] at hgroup
  rw [Part.bonusPoints]
  cases hbonus : part.cooperativeBonus with
  | none => exact ⟨0.0, rfl⟩
  | some bonus =>
    simp only [hbonus] at hgroup
    cases hresolve : bonus.resolve part (part.group input) with
    | ok points => exact ⟨points, hresolve⟩
    | error causes =>
      rw [hresolve, errorsOf] at hgroup
      exact absurd hgroup (CooperativeBonus.resolve_eq_error hresolve).2

theorem exists_ownPoints_eq_ok {part : Part} {input : ScoreInput}
    (hmissing : part.missingErrors input = [])
    (hvalue : part.valueErrors input = []) :
    ∃ points, part.ownPoints input = some (.ok points) := by
  have hmem : part.id ∈ input.values.keys := by
    rw [Part.missingErrors] at hmissing
    split at hmissing
    · assumption
    · cases hmissing
  rw [KeyedTable.mem_keys_iff_isSome] at hmem
  obtain ⟨raw, hraw⟩ := Option.isSome_iff_exists.mp hmem
  rw [Part.ownPoints, hraw, Option.map_some]
  simp only [Part.valueErrors, hraw] at hvalue
  cases hscore : part.score raw with
  | ok points => exact ⟨points, rfl⟩
  | error cause => simp [hscore] at hvalue

/-- The errors of one part are among the errors of the input. -/
theorem partErrors_eq_nil {profile : Profile} {input : ScoreInput}
    (herrors : profile.inputErrors input = []) {part : Part}
    (hpart : part ∈ profile.parts) :
    part.missingErrors input = [] ∧ part.groupErrors input = [] ∧
      part.valueErrors input = [] := by
  rw [Profile.inputErrors, List.append_eq_nil_iff, List.append_eq_nil_iff,
    List.flatMap_eq_nil_iff, List.flatMap_eq_nil_iff] at herrors
  obtain ⟨⟨hmissing, hfaults⟩, _⟩ := herrors
  exact ⟨hmissing part hpart, List.append_eq_nil_iff.mp (hfaults part hpart)⟩

/-- Every part of an input without errors has an entry, with its points and its
bonus. -/
theorem entry?_eq_some {profile : Profile} {input : ScoreInput}
    (herrors : profile.inputErrors input = []) {part : Part}
    (hpart : part ∈ profile.parts) :
    ∃ points bonus, part.ownPoints input = some (.ok points) ∧
      part.bonusPoints input = .ok bonus ∧
      part.entry? input = some (part.scored points bonus) := by
  obtain ⟨hmissing, hgroup, hvalue⟩ := partErrors_eq_nil herrors hpart
  obtain ⟨points, hpoints⟩ := exists_ownPoints_eq_ok hmissing hvalue
  obtain ⟨bonus, hbonus⟩ := exists_bonusPoints_eq_ok hgroup
  exact ⟨points, bonus, hpoints, hbonus, by rw [Part.entry?, hbonus, hpoints]⟩

/-- The entries stand in the order of the parts and leave none out. -/
theorem map_id_filterMap_entry? {input : ScoreInput} {parts : List Part}
    (hentry : ∀ part ∈ parts, ∃ points bonus,
      part.entry? input = some (part.scored points bonus)) :
    (parts.filterMap fun part => part.entry? input).map PartScore.id =
      parts.map Part.id := by
  induction parts with
  | nil => rfl
  | cons part rest ih =>
    obtain ⟨points, bonus, hpart⟩ := hentry part List.mem_cons_self
    rw [List.filterMap_cons, hpart, List.map_cons, List.map_cons,
      ih fun other hother => hentry other (List.mem_cons_of_mem _ hother)]
    rfl

/-- The entries of an input without errors have the ids of the parts. -/
theorem map_id_entries {profile : Profile} {input : ScoreInput}
    (herrors : profile.inputErrors input = []) :
    (profile.parts.filterMap fun part => part.entry? input).map PartScore.id =
      profile.parts.map Part.id := by
  refine map_id_filterMap_entry? fun part hpart => ?_
  obtain ⟨points, bonus, _, _, hentry⟩ := entry?_eq_some herrors hpart
  exact ⟨points, bonus, hentry⟩

/-- The symbols of an input without errors are the advertised names. -/
theorem mem_keys_symbols_iff {profile : Profile} {input : ScoreInput}
    (herrors : profile.inputErrors input = []) (name : String) :
    name ∈ (profile.symbols input).keys ↔ name ∈ profile.formulaSymbols := by
  rw [Profile.symbols, mem_keys_symbolTable, map_id_entries herrors,
    Profile.formulaSymbols, List.mem_append]

end TournamentScoring
