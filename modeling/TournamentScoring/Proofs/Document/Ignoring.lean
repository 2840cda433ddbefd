import TournamentScoring.Document.Loading

/-!
# Members that no record asks for

A record skips the members that it has no field for, and in a TOML document skipping meets
no problem.  So such members may be added, changed or left out: the record is decoded from
what remains.
-/

namespace TournamentScoring

open Document

mutual

/-- Nothing stops a reader that skips a value of a TOML document. -/
theorem Toml.skip_toSource (value : Toml) : value.toSource.skip = none := by
  match value with
  | .text _ | .integer _ | .float _ | .boolean _ | .moment _ => rfl
  | .array items => rw [toSource, Source.skip, skipItems_itemSources items, Option.none_or]
  | .table entries =>
    rw [toSource, Source.skip, skipMembers_entrySources entries, Option.none_or]
termination_by structural value

theorem Toml.skipItems_itemSources (items : List Toml) :
    Source.skipItems (itemSources items) = none := by
  match items with
  | [] => rfl
  | item :: items =>
    rw [itemSources, Source.skipItems, skip_toSource item, skipItems_itemSources items,
      Option.none_or]
termination_by structural items

theorem Toml.skipMembers_entrySources (entries : List (String × Toml)) :
    Source.skipMembers (entrySources entries) = none := by
  match entries with
  | [] => rfl
  | (key, value) :: entries =>
    rw [entrySources, Source.skipMembers, skip_toSource value,
      skipMembers_entrySources entries, Option.none_or]
    nofun
termination_by structural entries

end

/-- The entries of a table under other keys. -/
def Toml.others (key : String) (entries : List (String × Toml)) : List (String × Toml) :=
  entries.filter fun entry => entry.1 ≠ key

namespace Document

namespace RecordDecoder

variable {δ α : Type} {record : RecordDecoder δ α} {key : String}

/-- A record without a field of this name. -/
def Lacks (record : RecordDecoder δ α) (key : String) : Prop :=
  ∀ dialect draft source, record.put dialect draft key source = none

theorem putMembers_others (hlacks : record.Lacks key) (dialect : Dialect) (draft : δ)
    (entries : List (String × Toml)) :
    record.putMembers dialect draft (Toml.entrySources (Toml.others key entries)) =
      record.putMembers dialect draft (Toml.entrySources entries) := by
  induction entries generalizing draft with
  | nil => rfl
  | cons entry entries ih =>
    obtain ⟨name, value⟩ := entry
    by_cases hname : name = key
    · obtain rfl := hname
      have hkey : Label.key (.name name) = .ok name := rfl
      rw [Toml.others, List.filter_cons_of_neg (by simp), ← Toml.others, ih]
      simp only [Toml.entrySources, putMembers, hkey, hlacks dialect draft,
        Toml.skip_toSource, bind, Except.bind]
    · rw [Toml.others, List.filter_cons_of_pos (by simpa using hname), ← Toml.others]
      simp only [Toml.entrySources, putMembers, ih]

/-- A record is decoded from the entries that it has fields for. -/
theorem decoder_others (hlacks : record.Lacks key) (dialect : Dialect)
    (entries : List (String × Toml)) :
    record.decoder dialect (Toml.table (Toml.others key entries)).toSource =
      record.decoder dialect (Toml.table entries).toSource := by
  simp only [decoder, Toml.toSource, objectForm, putMembers_others hlacks]

end RecordDecoder

end Document

/-! ## Configurations as documents -/

/-- The same entry, or TOML documents that are equal apart from what is under a key. -/
inductive SameApartFrom (key path : String) : Entry → Entry → Prop
  | same (entry : Entry) : SameApartFrom key path entry entry
  | document {entry other : Entry} {text otherText : String}
      {entries otherEntries : List (String × Toml)}
      (hformat : Format.ofPath? path = some .toml)
      (hentry : entry.text? = some (.ok text)) (hother : other.text? = some (.ok otherText))
      (hread : Toml.read text = some (.table entries))
      (hotherRead : Toml.read otherText = some (.table otherEntries))
      (hsame : Toml.others key entries = Toml.others key otherEntries) :
      SameApartFrom key path entry other

theorem decodeEntry_of_read {α : Type} {kind : DocumentKind} {decoder : Decoder α}
    {path text : String} {entry : Entry} {value : Toml}
    (hformat : Format.ofPath? path = some .toml)
    (hentry : entry.text? = some (.ok text)) (hread : Toml.read text = some value) :
    decodeEntry kind decoder path entry =
      match (decoder Dialect.toml value.toSource).toOption with
      | some value => .ok value
      | none => .error (@LoadError.document kind text .toml) := by
  simp only [decodeEntry, hentry, hformat, Decoder.ofText, Decoder.ofTomlText, hread]
  cases (decoder Dialect.toml value.toSource).toOption <;> rfl

/-- The error without the text of the document that is refused. -/
def LoadError.withoutText : LoadError → LoadError
  | @document kind _ cause => @document kind "" cause
  | error => error

/-- The text is for the words of the libraries alone. -/
theorem LoadError.message_withoutText (error : LoadError) :
    error.withoutText.message = error.message := by
  cases error with
  | document cause => cases cause <;> rfl
  | _ => rfl

/-- What is under a key that a record does not know makes no difference to it, but for the
text that an error quotes. -/
theorem SameApartFrom.decodeEntry_eq {δ α : Type} {record : RecordDecoder δ α}
    {key path : String} {entry other : Entry} (hsame : SameApartFrom key path entry other)
    (hlacks : record.Lacks key) (kind : DocumentKind) :
    (decodeEntry kind record.decoder path entry).mapError LoadError.withoutText =
      (decodeEntry kind record.decoder path other).mapError LoadError.withoutText := by
  cases hsame with
  | same => rfl
  | document hformat hentry hother hread hotherRead hsame =>
    rw [decodeEntry_of_read hformat hentry hread,
      decodeEntry_of_read hformat hother hotherRead,
      ← RecordDecoder.decoder_others hlacks, hsame, RecordDecoder.decoder_others hlacks]
    split <;> rfl

/-- Neither a profile nor an input has a field for the settings of the engine. -/
theorem Profile.lacks_engine : Profile.recordDecoder.Lacks "engine" := fun _ _ _ => rfl

theorem ScoreInput.lacks_engine : ScoreInput.recordDecoder.Lacks "engine" := fun _ _ _ => rfl

end TournamentScoring
