import TournamentScoring.Document.Decoding
import TournamentScoring.Json.Reader
import TournamentScoring.Toml.Reader

/-!
# Documents of both formats

The same document can be written as JSON or as TOML, or can be a JSON value that
is already in memory.  Whatever fails in a value in memory is a mismatch: it has
been read before.
-/

namespace TournamentScoring.Document

inductive Format
  | json
  | toml
deriving DecidableEq

/-- Why a document cannot be read. -/
inductive DocumentError
  | json (cause : ReadError)
  | toml
deriving DecidableEq

namespace Decoder

variable {α : Type}

/-- Decodes a JSON text, with nothing but space after its value. -/
def ofJsonText (decoder : Decoder α) (text : String) : Except ReadError α :=
  let reading := Json.read text
  match decoder Dialect.jsonText reading.value with
  | .error cause => .error cause
  | .ok value => if reading.hasTrailing then .error .illFormed else .ok value

/-- Decodes a JSON value in memory. -/
def ofJson (decoder : Decoder α) (value : Json) : Except ReadError α :=
  match decoder Dialect.jsonValue (Source.ofJson value) with
  | .error _ => .error .mismatch
  | .ok value => .ok value

/-- Decodes a TOML text. -/
def ofTomlText (decoder : Decoder α) (text : String) : Option α :=
  match Toml.read text with
  | none => none
  | some table => (decoder Dialect.toml table.toSource).toOption

/-- Decodes the text of a document in a format. -/
def ofText (decoder : Decoder α) (format : Format) (text : String) :
    Except DocumentError α :=
  match format with
  | .json =>
    match decoder.ofJsonText text with
    | .ok value => .ok value
    | .error cause => .error (.json cause)
  | .toml =>
    match decoder.ofTomlText text with
    | some value => .ok value
    | none => .error .toml

end Decoder

end TournamentScoring.Document
