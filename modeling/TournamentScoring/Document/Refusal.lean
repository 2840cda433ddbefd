import TournamentScoring.Document.Format
import TournamentScoring.Toml.Basic

/-!
# Refusals in the words of the libraries

Documents, configurations and log filters are read by libraries.  Where one of them
refuses what it is given, its own words for that stand behind the message of the
error.  They depend on nothing but what was refused, so this is what an error keeps.
-/

namespace TournamentScoring

open Document

/-- What a document is read as. -/
inductive DocumentKind
  | profile
  | input
deriving DecidableEq

/-- What a library was given and did not take. -/
inductive Refusal
  | document (kind : DocumentKind) (format : Format) (text : String)
  /-- The text of one layer of a configuration. -/
  | layer (text : String)
  /-- The settings that the layers of a configuration make together. -/
  | settings (merged : Toml)
  | logFilter (text : String)

/-- What the libraries say about a refusal, as far as this is known. -/
abbrev Wording := Refusal → Option String

namespace Wording

/-- Nothing is known of the libraries. -/
def unknown : Wording := fun _ => none

/-- A message, with the words for a refusal behind it. -/
def explain (wording : Wording) (refusal : Refusal) (message : String) : String :=
  match wording refusal with
  | none => message
  | some words => s!"{message}: {words}"

end Wording

end TournamentScoring
