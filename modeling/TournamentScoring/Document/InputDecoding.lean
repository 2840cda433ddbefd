import TournamentScoring.Document.Decoding
import TournamentScoring.ScoreInput

/-!
# Score inputs in documents

Each of the three tables may be left out.  Raw values are kept whatever they are,
so that a wrong value is an error of its part and never one of the document.
-/

namespace TournamentScoring

open Document

/-- A value of an input, by the first untagged variant that takes it. -/
def RawValue.decoder : Decoder RawValue := fun dialect source =>
  (Decoder.whole dialect source).map RawValue.ofJson

structure ScoreInput.Draft where
  values : Option (KeyedTable RawValue)
  penalties : Option (KeyedTable UInt32)
  cooperative : Option (KeyedTable (List RawValue))

def ScoreInput.recordDecoder : RecordDecoder ScoreInput.Draft ScoreInput where
  fields := ["values", "penalties", "cooperative"]
  start := ⟨none, none, none⟩
  put dialect draft field source :=
    match field with
    | "values" =>
      some (fill (.table RawValue.decoder) draft.values
        (fun value => { draft with values := some value }) dialect source)
    | "penalties" =>
      some (fill (.table .word32) draft.penalties
        (fun value => { draft with penalties := some value }) dialect source)
    | "cooperative" =>
      some (fill (.table (.list RawValue.decoder)) draft.cooperative
        (fun value => { draft with cooperative := some value }) dialect source)
    | _ => none
  finish _ draft :=
    .ok
      { values := draft.values.getD .empty
        penalties := draft.penalties.getD .empty
        cooperative := draft.cooperative.getD .empty }

/-- The derived decoding of `ScoreInput`. -/
def ScoreInput.decoder : Decoder ScoreInput :=
  ScoreInput.recordDecoder.decoder

end TournamentScoring
