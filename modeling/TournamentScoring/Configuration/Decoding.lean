import TournamentScoring.Configuration.Basic
import TournamentScoring.Toml.Basic

/-!
# Configurations in TOML

Unknown keys are ignored.  A section may be an array of its settings in their
order; then all of them must be there, apart from the stages.  Dates and times
count as text.
-/

namespace TournamentScoring

namespace Toml

def text? : Toml → Option String
  | text value => some value
  | moment spelling => some spelling
  | _ => none

/-- A whole number that is not negative. -/
def natural? : Toml → Option Nat
  | integer value => if 0 ≤ value then some value.toNat else none
  | _ => none

def word32? (value : Toml) : Option UInt32 :=
  match value.natural? with
  | some number =>
    if number < UInt32.size then some (UInt32.ofNat number) else none
  | none => none

/-- A setting that may be left out.  The outer option says whether its value, if
there is one, has the right type. -/
def setting? {α : Type} (read : Toml → Option α) :
    Option Toml → Option (Option α)
  | none => some none
  | some value => (read value).map some

/-- The texts of a table by key. -/
def textTable? : Toml → Option (KeyedTable String)
  | table entries => do
    let texts ← entries.mapM fun entry =>
      entry.2.text?.map fun value => (entry.1, value)
    return KeyedTable.ofList texts
  | _ => none

end Toml

open Toml

def EngineSection.ofToml? : Toml → Option EngineSection
  | .table entries => do
    let maxFormulaLength ←
      setting? natural? (entries.lookup "max_formula_length")
    let scoreDecimals ← setting? word32? (entries.lookup "score_decimals")
    let logLevel ← setting? text? (entries.lookup "log_level")
    return ⟨maxFormulaLength, scoreDecimals, logLevel⟩
  | .array [maxFormulaLength, scoreDecimals, logLevel] => do
    let maxFormulaLength ← natural? maxFormulaLength
    let scoreDecimals ← word32? scoreDecimals
    let logLevel ← text? logLevel
    return ⟨some maxFormulaLength, some scoreDecimals, some logLevel⟩
  | _ => none

def ProfilesSection.ofToml? : Toml → Option ProfilesSection
  | .table entries => do
    let tournament ← setting? text? (entries.lookup "tournament")
    let stages ← setting? textTable? (entries.lookup "stages")
    return ⟨tournament, stages.getD .empty⟩
  | .array [tournament] => do
    let tournament ← text? tournament
    return ⟨some tournament, .empty⟩
  | .array [tournament, stages] => do
    let tournament ← text? tournament
    let stages ← textTable? stages
    return ⟨some tournament, stages⟩
  | _ => none

/-- The configuration that a TOML document spells, if all its settings have the
right types. -/
def Configuration.ofToml? : Toml → Option Configuration
  | .table entries => do
    let engine ← setting? EngineSection.ofToml? (entries.lookup "engine")
    let profiles ← setting? ProfilesSection.ofToml? (entries.lookup "profiles")
    return ⟨engine, profiles⟩
  | _ => none

end TournamentScoring
