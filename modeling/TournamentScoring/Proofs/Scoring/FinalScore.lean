import TournamentScoring.Profile.Validation
import TournamentScoring.Proofs.Decimal.Rounding
import TournamentScoring.Proofs.Scoring.FormulaValue

/-!
# Range of the final score

The value of the formula is checked to be finite before it is rounded, and the
rounded score is not checked again.  So a score is finite exactly if the scaled
value is in range; it is never less than a number.
-/

namespace TournamentScoring

open TournamentScoring.Binary64

/-- A match with a score has no input error, and its formula has a value. -/
theorem scoreMatch_eq_ok {profile : Profile} {input : ScoreInput}
    {settings : EngineSettings} {result : MatchScore}
    (hresult : profile.scoreMatch input settings = .ok result) :
    ∃ formulaValue, profile.inputErrors input = [] ∧
      evaluateFormula profile.totalFormula (profile.symbols input) settings =
        .ok formulaValue ∧
      result = ⟨finalScore formulaValue settings,
        profile.breakdown input formulaValue⟩ := by
  by_cases herrors : profile.inputErrors input = []
  · rw [scoreMatch_of_inputErrors_eq_nil profile input settings herrors]
      at hresult
    cases hvalue : evaluateFormula profile.totalFormula
        (profile.symbols input) settings with
    | error cause =>
      rw [hvalue] at hresult
      cases hresult
    | ok formulaValue =>
      rw [hvalue] at hresult
      exact ⟨formulaValue, herrors, rfl, (Except.ok.inj hresult).symm⟩
  · rw [scoreMatch_of_inputErrors_ne_nil profile input settings herrors]
      at hresult
    cases hresult

/-- Rounding a finite value up to six places gives a finite score exactly if the
scaled value is in range, and an infinity otherwise. -/
theorem finalScore_range {formulaValue : Float}
    (hfinite : formulaValue.isFinite = true) {settings : EngineSettings}
    (hdecimals : ∀ decimals, settings.scoreDecimals = some decimals →
      decimals.toNat ≤ 6) :
    (finalScore formulaValue settings).isNaN = false ∧
      ((finalScore formulaValue settings).isFinite = true ↔
        ∀ decimals, settings.scoreDecimals = some decimals →
          |value formulaValue| * 10 ^ decimals.toNat < overflowBound) := by
  rw [finalScore]
  cases hplaces : settings.scoreDecimals with
  | none => exact ⟨isNaN_of_isFinite hfinite, iff_of_true hfinite nofun⟩
  | some decimals =>
    have hsix := hdecimals decimals hplaces
    by_cases hscaled : |value formulaValue| * 10 ^ decimals.toNat < overflowBound
    · have hrounded := (Decimal.isFinite_and_value_roundTo hfinite hsix hscaled).1
      refine ⟨isNaN_of_isFinite hrounded, iff_of_true hrounded ?_⟩
      rintro _ ⟨⟩
      exact hscaled
    · obtain ⟨sign, hinfinity⟩ :=
        Decimal.exists_roundTo_infinity hfinite hsix hscaled
      rw [isNaN_eq, isFinite_eq, hinfinity]
      refine ⟨rfl, iff_of_false Bool.false_ne_true ?_⟩
      intro hall
      exact hscaled (hall decimals rfl)

/-- The score of a match is a finite number exactly if its scaled value does not
round out of range, and it is an infinity otherwise: every score is a number, and
every unrounded score is finite. -/
theorem scoreMatch_score_isFinite_iff {profile : Profile} {input : ScoreInput}
    {settings : EngineSettings} {result : MatchScore}
    (hdecimals : ∀ decimals, settings.scoreDecimals = some decimals →
      decimals.toNat ≤ 6)
    (hresult : profile.scoreMatch input settings = .ok result) :
    result.score.isNaN = false ∧
      (result.score.isFinite = true ↔
        ∀ decimals, settings.scoreDecimals = some decimals →
          |value result.breakdown.formulaValue| * 10 ^ decimals.toNat <
            2 ^ 1024 - 2 ^ 970) := by
  obtain ⟨formulaValue, -, hvalue, rfl⟩ := scoreMatch_eq_ok hresult
  obtain ⟨-, -, -, hfinite⟩ := evaluateFormula_eq_ok hvalue
  exact finalScore_range hfinite hdecimals

/-- One count that is worth its own value. -/
def unitProfile : Profile where
  version := 1
  parts := [⟨"auto", "Auto", none, none, .number 1.0 none⟩]
  penalties := []
  totalFormula := "auto"
  notes := none

/-- A float next to `1e308`. -/
def largeCount : Float :=
  Float.ofBits 0x7FE1CCF385EBC8A0

def largeInput : ScoreInput where
  values := KeyedTable.empty.insert "auto" (.number largeCount)
  penalties := KeyedTable.empty
  cooperative := KeyedTable.empty

def centSettings : EngineSettings where
  maxFormulaLength := 2000
  scoreDecimals := some 2

theorem unitProfile_score_overflows :
    unitProfile.structureIssues = [] ∧
      ∃ result, unitProfile.scoreMatch largeInput centSettings = .ok result ∧
        result.score.isNaN = false ∧ result.score.isFinite = false ∧
        ¬|value result.breakdown.formulaValue| * 10 ^ 2 <
          2 ^ 1024 - 2 ^ 970 := by
  have hcompile : Formula.compile "auto" = .ok (.symbol "auto") := by
    cbv
  have herrors : unitProfile.inputErrors largeInput = [] := by
    rfl
  have hsymbol : (unitProfile.symbols largeInput).get? "auto" =
      some (largeCount * 1.0 + 0.0) := by
    rfl
  have hfinite : (largeCount * 1.0 + 0.0 : Float).isFinite = true := by
    decide +kernel
  have hinfinite : (Decimal.roundTo (largeCount * 1.0 + 0.0) 2).isFinite = false := by
    decide +kernel
  have hevaluate : (Formula.Expression.symbol "auto").evaluate
      (unitProfile.symbols largeInput) = .ok (largeCount * 1.0 + 0.0) := by
    rw [Formula.Expression.evaluate, hsymbol]
  have hvalue : evaluateFormula unitProfile.totalFormula
      (unitProfile.symbols largeInput) centSettings =
        .ok (largeCount * 1.0 + 0.0) := by
    refine (evaluateFormula_of_compile_eq_ok (by decide) hcompile).trans ?_
    rw [hevaluate]
    exact if_pos hfinite
  have hresult : unitProfile.scoreMatch largeInput centSettings =
      .ok ⟨Decimal.roundTo (largeCount * 1.0 + 0.0) 2,
        unitProfile.breakdown largeInput (largeCount * 1.0 + 0.0)⟩ := by
    rw [scoreMatch_of_inputErrors_eq_nil _ _ _ herrors, hvalue]
    rfl
  have hdecimals : ∀ decimals, centSettings.scoreDecimals = some decimals →
      decimals.toNat ≤ 6 := by
    rintro _ ⟨⟩
    decide
  obtain ⟨hnumber, hrange⟩ := scoreMatch_score_isFinite_iff hdecimals hresult
  refine ⟨by decide +kernel, _, hresult, hnumber, hinfinite, ?_⟩
  intro hscaled
  have hscore := hrange.mpr fun decimals hplaces => by
    obtain rfl : 2 = decimals := Option.some.inj hplaces
    exact hscaled
  rw [hinfinite] at hscore
  cases hscore

end TournamentScoring
