import TournamentScoring.Proofs.Formula.Messages
import TournamentScoring.Proofs.Profile.Violations
import TournamentScoring.Proofs.Scoring.FormulaValue

/-!
# Messages about inputs

An error of an input or of its formula is described on one line, as long as the
parts have identifiers for ids.  Only a penalty that belongs to no rule is named as
the input spells it.
-/

namespace TournamentScoring

open TournamentScoring.Text

theorem RawValue.isOneLine_describe (raw : RawValue) : IsOneLine raw.describe := by
  cases raw with
  | flag value =>
    cases value with
    | false => decide
    | true => decide
  | number value => exact Decimal.Style.isOneLine_write _ value
  | other value => exact Json.isOneLine_compact value

theorem ValueFault.isOneLine_message (fault : ValueFault) :
    IsOneLine fault.message := by
  have hgot : IsOneLine ", got " := by decide
  cases fault with
  | notACount value =>
    have hstart : IsOneLine "expected a non-negative number, got " := by decide
    exact hstart.append (Decimal.Style.isOneLine_write _ value)
  | wrongKind kind value =>
    have hstart : IsOneLine "expected " := by decide
    have hkind : IsOneLine kind.expectation := by
      unfold PartKind.expectation
      split
      all_goals decide
    exact ((hstart.append hkind).append hgot).append value.isOneLine_describe
  | overflow value =>
    have hend : IsOneLine " units overflow the points range" := by decide
    exact IsOneLine.append (Decimal.Style.isOneLine_write _ value) hend

namespace ScoringError

theorem isOneLine_kind (error : ScoringError) : IsOneLine error.kind := by
  unfold kind
  split
  all_goals decide

theorem isOneLine_describe {error : ScoringError}
    (hmessage : IsOneLine error.message) : IsOneLine error.describe := by
  have hcolon : IsOneLine ": " := by decide
  exact (error.isOneLine_kind.append hcolon).append hmessage

theorem isOneLine_missingPartInput {part : String} (hpart : IsOneLine part) :
    IsOneLine (missingPartInput part).describe := by
  have hstart : IsOneLine "missing score input for part '" := by decide
  have hquote : IsOneLine "'" := by decide
  exact isOneLine_describe ((hstart.append hpart).append hquote)

theorem isOneLine_invalidPartValue {part : String} (hpart : IsOneLine part)
    (fault : ValueFault) : IsOneLine (invalidPartValue part fault).describe := by
  have hstart : IsOneLine "invalid value for part '" := by decide
  have hquote : IsOneLine "': " := by decide
  exact isOneLine_describe
    (((hstart.append hpart).append hquote).append fault.isOneLine_message)

theorem isOneLine_groupSizeMismatch {part : String} (hpart : IsOneLine part)
    (required : UInt8) (supplied : Nat) :
    IsOneLine (groupSizeMismatch part required supplied).describe := by
  have hstart : IsOneLine "cooperative bonus for part '" := by decide
  have hrequires : IsOneLine "' requires " := by decide
  have hspace : IsOneLine " " := by decide
  have hgot : IsOneLine "team values, got " := by decide
  exact isOneLine_describe
    (((((hstart.append hpart).append hrequires).append
      (isOneLine_toString_nat required.toNat)).append hspace).append
        (hgot.append (isOneLine_toString_nat supplied)))

end ScoringError

/-! ## The errors of a match -/

theorem CooperativeBonus.isOneLine_of_mem_resolve {bonus : CooperativeBonus}
    {part : Part} (hpart : IsOneLine part.id) {group : List RawValue}
    {causes : List ScoringError} (hresolve : bonus.resolve part group = .error causes)
    {cause : ScoringError} (hcause : cause ∈ causes) : IsOneLine cause.describe := by
  rcases eq_sizeMismatch_or_refuses hresolve hcause with rfl | ⟨fault, rfl⟩
  · exact ScoringError.isOneLine_groupSizeMismatch hpart _ _
  · exact ScoringError.isOneLine_invalidPartValue hpart fault

theorem isOneLine_of_mem_groupErrors {part : Part} (hpart : IsOneLine part.id)
    {input : ScoreInput} {error : ScoringError}
    (herror : error ∈ part.groupErrors input) : IsOneLine error.describe := by
  rw [Part.groupErrors] at herror
  split at herror
  · cases herror
  · rename_i bonus hbonus
    cases hresolve : bonus.resolve part (part.group input) with
    | ok points => simp [hresolve, errorsOf] at herror
    | error causes =>
      rw [hresolve, errorsOf] at herror
      exact CooperativeBonus.isOneLine_of_mem_resolve hpart hresolve herror

theorem isOneLine_of_mem_valueErrors {part : Part} (hpart : IsOneLine part.id)
    {input : ScoreInput} {error : ScoringError}
    (herror : error ∈ part.valueErrors input) : IsOneLine error.describe := by
  rw [Part.valueErrors] at herror
  split at herror
  · cases herror
  · rename_i raw hraw
    split at herror
    · cases herror
    · rename_i cause hscore
      obtain ⟨fault, rfl⟩ := Part.refuses_of_score_eq_error hscore
      rw [List.mem_singleton.mp herror]
      exact ScoringError.isOneLine_invalidPartValue hpart fault

/-- Of the errors of an input, only a penalty that belongs to no rule can be
described on several lines. -/
theorem isOneLine_or_unknownPenaltyId {profile : Profile}
    (hvalid : profile.structureIssues = []) {input : ScoreInput}
    {error : ScoringError} (herror : error ∈ profile.inputErrors input) :
    IsOneLine error.describe ∨
      ∃ id ∈ input.penalties.keys, id ∉ profile.penalties.map PenaltyRule.id ∧
        error = .unknownPenaltyId id := by
  have hids : ∀ part ∈ profile.parts, IsOneLine part.id := fun part hpart =>
    isOneLine_of_isIdentifier (profile.isIdentifier_id hvalid hpart)
  rw [Profile.inputErrors, List.mem_append, List.mem_append] at herror
  rcases herror with (hmissing | hpart) | hunknown
  · obtain ⟨part, hpart, hmem⟩ := List.mem_flatMap.mp hmissing
    rw [Part.missingErrors] at hmem
    split at hmem
    · cases hmem
    · rw [List.mem_singleton.mp hmem]
      exact Or.inl (ScoringError.isOneLine_missingPartInput (hids part hpart))
  · obtain ⟨part, hpart, hmem⟩ := List.mem_flatMap.mp hpart
    rcases List.mem_append.mp hmem with hgroup | hvalue
    · exact Or.inl (isOneLine_of_mem_groupErrors (hids part hpart) hgroup)
    · exact Or.inl (isOneLine_of_mem_valueErrors (hids part hpart) hvalue)
  · obtain ⟨id, hid, hmem⟩ := List.mem_flatMap.mp hunknown
    rw [occurrenceErrors] at hmem
    split at hmem
    · cases hmem
    · rename_i hnorule
      exact Or.inr ⟨id, hid, hnorule, List.mem_singleton.mp hmem⟩

/-- A formula without a value says so on one line. -/
theorem isOneLine_of_evaluateFormula {source : String}
    {symbols : Formula.SymbolTable} {settings : EngineSettings}
    {cause : Formula.FormulaError}
    (herror : evaluateFormula source symbols settings = .error cause) :
    IsOneLine (ScoringError.formula cause).describe := by
  apply ScoringError.isOneLine_describe
  cases cause with
  | malformed cause =>
    have hstart : IsOneLine "malformed formula: " := by decide
    apply hstart.append
    by_cases hlength : settings.maxFormulaLength < source.length
    · rw [evaluateFormula_of_length_lt hlength] at herror
      cases herror
      have hfound : IsOneLine "formula is " := by decide
      have hlimit : IsOneLine " characters, limit is " := by decide
      exact ((hfound.append (isOneLine_toString_nat _)).append hlimit).append
        (isOneLine_toString_nat _)
    · cases hcompile : Formula.compile source with
      | error found =>
        rw [evaluateFormula_of_compile_eq_error hlength hcompile] at herror
        cases herror
        exact Formula.isOneLine_of_compile_eq_error hcompile
      | ok expression =>
        exact absurd herror (evaluateFormula_ne_malformed hlength hcompile cause)
  | unknownSymbol name =>
    obtain ⟨-, expression, hcompile, hname, -⟩ :=
      evaluateFormula_eq_unknownSymbol herror
    have hstart : IsOneLine "unknown symbol in formula: " := by decide
    exact hstart.append (Formula.isOneLine_of_mem_names hcompile hname)
  | divisionByZero => decide
  | nonFiniteResult => decide

end TournamentScoring
