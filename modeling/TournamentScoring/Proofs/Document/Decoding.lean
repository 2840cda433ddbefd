import TournamentScoring.Document.Format
import TournamentScoring.Document.ProfileEncoding

/-!
# Decoding values in memory

What a decoder makes of a source that offers a JSON value without any problem.
Each array and object costs one level of room; a record is decoded by one step
for each of its members.
-/

namespace TournamentScoring.Document

/-! ## Steps that can fail -/

section

variable {ε α β : Type} {first : Except ε α} {result : β}

theorem bind_eq_ok_iff {next : α → Except ε β} :
    first >>= next = .ok result ↔ ∃ value, first = .ok value ∧ next value = .ok result := by
  cases first with
  | error cause => exact iff_of_false nofun (by rintro ⟨_, ⟨⟩, _⟩)
  | ok value =>
    refine ⟨fun hnext => ⟨value, rfl, hnext⟩, ?_⟩
    rintro ⟨_, ⟨⟩, hnext⟩
    exact hnext

theorem map_eq_ok_iff {next : α → β} :
    first.map next = .ok result ↔ ∃ value, first = .ok value ∧ next value = result := by
  cases first with
  | error cause => exact iff_of_false nofun (by rintro ⟨_, ⟨⟩, _⟩)
  | ok value =>
    refine ⟨fun hnext => ⟨value, rfl, Except.ok.inj hnext⟩, ?_⟩
    rintro ⟨_, ⟨⟩, rfl⟩
    rfl

end

/-! ## Room -/

/-- Arrays and objects may nest at least so deep. -/
def Dialect.HasRoom (dialect : Dialect) (depth : Nat) : Prop :=
  ∀ room ∈ dialect.room, depth ≤ room

theorem Dialect.HasRoom.enter {dialect : Dialect} {depth : Nat}
    (hroom : dialect.HasRoom (depth + 1)) :
    ∃ inner, dialect.enter = .ok inner ∧ inner.HasRoom depth := by
  rw [Dialect.enter]
  cases hcase : dialect.room with
  | none =>
    refine ⟨_, rfl, ?_⟩
    rintro room ⟨⟩
  | some room =>
    have hdepth := hroom room hcase
    obtain ⟨less, rfl⟩ : ∃ less, room = less + 1 :=
      Nat.exists_eq_succ_of_ne_zero (by omega)
    refine ⟨_, rfl, ?_⟩
    rintro _ ⟨rfl⟩
    omega

theorem Dialect.HasRoom.mono {dialect : Dialect} {depth less : Nat}
    (hroom : dialect.HasRoom depth) (hless : less ≤ depth) : dialect.HasRoom less :=
  fun room hmem => Nat.le_trans hless (hroom room hmem)

/-- A reader of texts goes this deep. -/
theorem Dialect.hasRoom_jsonText {depth : Nat} (hdepth : depth ≤ 127) :
    Dialect.jsonText.HasRoom depth := by
  rintro _ ⟨rfl⟩
  exact hdepth

/-! ## Values -/

namespace Decoder

variable {α : Type} {dialect : Dialect}

theorem natural_toNat {number bound : Nat} (hnumber : number < bound) :
    natural bound dialect (.integer number) = .ok number := by
  have hrange : 0 ≤ (number : Int) ∧ (number : Int) < bound := by omega
  rw [natural]
  exact if_pos hrange

theorem word32_toNat (value : UInt32) :
    word32 dialect (.integer value.toNat) = .ok value := by
  rw [word32, natural_toNat value.toNat_lt]
  exact congrArg Except.ok UInt32.ofNat_toNat

theorem word8_toNat (value : UInt8) :
    word8 dialect (.integer value.toNat) = .ok value := by
  rw [word8, natural_toNat value.toNat_lt]
  exact congrArg Except.ok UInt8.ofNat_toNat

theorem optional_eq {decoder : Decoder α} {source : Source} {value : α}
    (hvalue : decoder dialect source = .ok value) (hnull : source ≠ .null) :
    optional decoder dialect source = .ok (some value) := by
  rw [optional, hvalue]
  · rfl
  · exact hnull

theorem variant_name {ofName : String → Option α} {name : String} {value : α}
    (hname : ofName name = some value) :
    variant ofName dialect (.text name) = .ok value := by
  rw [variant, named, hname]

/-- A list is decoded if each of its items is. -/
theorem items_ofItems {decoder : Decoder α} {encode : α → Json} {values : List α}
    (hvalues : ∀ value ∈ values,
      decoder dialect (Source.ofJson (encode value)) = .ok value) :
    items decoder dialect (Source.ofItems (values.map encode)) = .ok values := by
  induction values with
  | nil => rfl
  | cons value values ih =>
    rw [List.map_cons, Source.ofItems, items, hvalues value List.mem_cons_self,
      ih fun other hmem => hvalues other (List.mem_cons_of_mem _ hmem)]
    rfl

theorem list_ofJson {decoder : Decoder α} {encode : α → Json} {values : List α}
    {inner : Dialect} (henter : dialect.enter = .ok inner)
    (hvalues : ∀ value ∈ values,
      decoder inner (Source.ofJson (encode value)) = .ok value) :
    list decoder dialect (Source.ofJson (.array (values.map encode))) = .ok values := by
  rw [Source.ofJson, list, henter]
  change (items decoder inner _ >>= _) = _
  rw [items_ofItems hvalues]
  rfl

/-- A text that is read whole is decoded like the source it is read as. -/
theorem ofJsonText_eq {decoder : Decoder α}
    {text : String} {source : Source} {value : α}
    (hread : Json.read text = ⟨source, false⟩)
    (hvalue : decoder Dialect.jsonText source = .ok value) :
    decoder.ofJsonText text = .ok value := by
  rw [Decoder.ofJsonText, hread]
  simp only [hvalue]
  rfl

end Decoder

/-! ## Records -/

theorem fill_eq {β δ : Type} {decoder : Decoder β} {store : β → δ}
    {dialect : Dialect} {source : Source} {value : β}
    (hvalue : decoder dialect source = .ok value) :
    fill decoder none store dialect source = .ok (store value) := by
  rw [fill, hvalue]
  rfl

namespace RecordDecoder

variable {δ α : Type} {record : RecordDecoder δ α} {dialect : Dialect}

/-- One member is read into the draft. -/
theorem putMembers_cons {draft next : δ} {key : String} {value : Json}
    {members : List (String × Json)}
    (hput : record.put dialect draft key (Source.ofJson value) = some (.ok next)) :
    record.putMembers dialect draft (Source.ofMembers ((key, value) :: members)) =
      record.putMembers dialect next (Source.ofMembers members) := by
  have hkey : Label.key (.name key) = .ok key := rfl
  simp only [Source.ofMembers, putMembers, hkey, hput, bind, Except.bind]

/-- A member that may be left out is read if it is there. -/
theorem putMembers_optional {β : Type} {draft : δ} (next : δ) {key : String}
    {encode : β → Json} {member : Option β} {members rest : List (String × Json)}
    (hmembers : members = Json.optionalMember key encode member ++ rest)
    (habsent : member = none → draft = next)
    (hput : ∀ value, member = some value →
      record.put dialect draft key (Source.ofJson (encode value)) = some (.ok next)) :
    record.putMembers dialect draft (Source.ofMembers members) =
      record.putMembers dialect next (Source.ofMembers rest) := by
  rw [hmembers]
  cases member with
  | none =>
    rw [habsent rfl]
    rfl
  | some value => exact putMembers_cons (hput value rfl)

theorem objectForm_eq {inner : Dialect} {members : List (Label × Source)}
    (draft : δ) {value : α} (henter : dialect.enter = .ok inner)
    (hmembers : record.putMembers inner record.start members = .ok draft)
    (hfinish : record.finish dialect draft = .ok value) :
    record.objectForm dialect members none = .ok value := by
  rw [objectForm, henter]
  change (record.putMembers inner record.start members >>= _) = _
  rw [hmembers]
  exact hfinish

end RecordDecoder

end TournamentScoring.Document
