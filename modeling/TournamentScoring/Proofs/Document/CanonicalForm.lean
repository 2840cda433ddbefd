import TournamentScoring.Document.Format
import TournamentScoring.Document.ProfileDecoding
import TournamentScoring.Document.ProfileEncoding
import TournamentScoring.Proofs.Document.Decoding
import TournamentScoring.Proofs.Json.Reading
import TournamentScoring.Scoring.Match

/-!
# The canonical form identifies a profile

Decoding undoes encoding, record by record, and the compact text of the encoded
profile is read as the encoded profile.  So the text that is hashed for the digest
is the text of one profile only.
-/

namespace TournamentScoring

open Document Document.RecordDecoder

/-! ## Names -/

theorem BonusScope.ofName?_name (scope : BonusScope) :
    BonusScope.ofName? scope.name = some scope := by
  cases scope <;> rfl

theorem PenaltyTarget.ofName?_name (target : PenaltyTarget) :
    PenaltyTarget.ofName? target.name = some target := by
  cases target <;> rfl

theorem PenaltyDirection.ofName?_name (direction : PenaltyDirection) :
    PenaltyDirection.ofName? direction.name = some direction := by
  cases direction <;> rfl

/-! ## Records -/

variable {dialect : Dialect}

/-- An optional text is stored as it was left out or written. -/
theorem fill_optional_text {δ : Type} {store : Option String → δ} (content : String) :
    fill (.optional .text) none store dialect (Source.ofJson (.text content)) =
      .ok (store (some content)) :=
  fill_eq (Decoder.optional_eq rfl (by rintro ⟨⟩))

theorem join_map_some {α : Type} (value : Option α) : (value.map some).join = value := by
  cases value <;> rfl

theorem CooperativeBonus.decoder_toJson (bonus : CooperativeBonus)
    (hroom : dialect.HasRoom 1) :
    CooperativeBonus.decoder dialect (Source.ofJson bonus.toJson) = .ok bonus := by
  obtain ⟨inner, henter, -⟩ := hroom.enter
  obtain ⟨count, points, scope, description⟩ := bonus
  refine objectForm_eq ⟨some count, some points, some scope, description.map some⟩
    henter ?_ ?_
  · refine (putMembers_cons
      (congrArg some (fill_eq (Decoder.word8_toNat count)))).trans ?_
    refine (putMembers_cons
      (congrArg some (fill_eq (Decoder.word32_toNat points)))).trans ?_
    refine (putMembers_cons
      (congrArg some (fill_eq (Decoder.variant_name scope.ofName?_name)))).trans ?_
    refine (putMembers_optional _ (List.append_nil _).symm ?_ ?_).trans rfl
    · rintro rfl
      rfl
    · rintro content rfl
      exact congrArg some (fill_optional_text content)
  · change Except.ok (CooperativeBonus.mk count points scope (description.map some).join) = _
    rw [join_map_some]

theorem PenaltyRule.decoder_toJson (rule : PenaltyRule) (hroom : dialect.HasRoom 1) :
    PenaltyRule.decoder dialect (Source.ofJson rule.toJson) = .ok rule := by
  obtain ⟨inner, henter, -⟩ := hroom.enter
  obtain ⟨id, label, description, points, target, direction⟩ := rule
  refine objectForm_eq ⟨some id, some label, description.map some, some points,
    some target, some direction⟩ henter ?_ ?_
  · refine (putMembers_cons rfl).trans ?_
    refine (putMembers_cons rfl).trans ?_
    refine (putMembers_optional ⟨some id, some label, description.map some, none,
      none, none⟩ rfl ?_ ?_).trans ?_
    · rintro rfl
      rfl
    · rintro content rfl
      exact congrArg some (fill_optional_text content)
    refine (putMembers_cons
      (congrArg some (fill_eq (Decoder.word32_toNat points)))).trans ?_
    refine (putMembers_cons
      (congrArg some (fill_eq (Decoder.variant_name target.ofName?_name)))).trans ?_
    refine (putMembers_cons
      (congrArg some (fill_eq (Decoder.variant_name direction.ofName?_name)))).trans ?_
    rfl
  · change Except.ok (PenaltyRule.mk id label (description.map some).join points target
      direction) = _
    rw [join_map_some]

/-! ## Parts -/

theorem word32Of_word (value : UInt32) : word32Of (.word value) = .ok value := by
  have hrange : 0 ≤ (value.toNat : Int) ∧ (value.toNat : Int) < UInt32.size := by
    have hless := value.toNat_lt
    exact ⟨by omega, by exact_mod_cast hless⟩
  rw [Json.word, Json.natural, word32Of, if_pos hrange]
  exact congrArg Except.ok UInt32.ofNat_toNat

/-- A number part with a largest value takes three fields from its members. -/
theorem PartKind.ofMembers_number {members : List (String × Json)}
    {pointsPerUnit : Float} {value : Json} {maxValue : UInt32}
    (htag : onlyValue "type" members = .ok (.text "number"))
    (hpoints : onlyValue "pointsPerUnit" members = .ok (.float pointsPerUnit))
    (hmaximum : optionalValue "maxValue" members = .ok (some value))
    (hword : word32Of value = .ok maxValue) :
    PartKind.ofMembers dialect members = .ok (.number pointsPerUnit (some maxValue)) := by
  have hkind : KindTag.ofJson dialect (.text "number") = .ok .number := rfl
  simp only [PartKind.ofMembers, htag, hkind, hpoints, hmaximum, floatOf, hword, bind,
    Except.bind]
  rfl

/-- The kind is found among its own members. -/
theorem PartKind.ofMembers_members (kind : PartKind) :
    PartKind.ofMembers dialect kind.members = .ok kind := by
  cases kind with
  | boolean truePoints => rfl
  | number pointsPerUnit maxValue =>
    cases maxValue with
    | none => rfl
    | some value => exact PartKind.ofMembers_number rfl rfl rfl (word32Of_word value)

/-- The members of the kind are kept until the part is complete. -/
theorem Part.putMembers_kind (id label : Option String)
    (description : Option (Option String))
    (cooperativeBonus : Option (Option CooperativeBonus)) (kind : PartKind) :
    Part.recordDecoder.putMembers dialect
        ⟨id, label, description, cooperativeBonus, []⟩ (Source.ofMembers kind.members) =
      .ok ⟨id, label, description, cooperativeBonus, kind.members⟩ := by
  cases kind with
  | boolean truePoints =>
    refine (putMembers_cons rfl).trans ?_
    exact putMembers_cons rfl
  | number pointsPerUnit maxValue =>
    refine (putMembers_cons rfl).trans ?_
    refine (putMembers_cons rfl).trans ?_
    cases maxValue with
    | none => rfl
    | some value => exact putMembers_cons rfl

theorem Part.decoder_toJson (part : Part) (hroom : dialect.HasRoom 2) :
    Part.decoder dialect (Source.ofJson part.toJson) = .ok part := by
  obtain ⟨inner, henter, hinner⟩ := hroom.enter
  obtain ⟨id, label, description, cooperativeBonus, kind⟩ := part
  refine objectForm_eq ⟨some id, some label, description.map some,
    cooperativeBonus.map some, kind.members⟩ henter ?_ ?_
  · refine (putMembers_cons rfl).trans ?_
    refine (putMembers_cons rfl).trans ?_
    refine (putMembers_optional ⟨some id, some label, description.map some, none,
      []⟩ (List.append_assoc
      (Json.optionalMember "description" .text description)
      (Json.optionalMember "cooperativeBonus" CooperativeBonus.toJson cooperativeBonus)
      kind.members) ?_ ?_).trans ?_
    · rintro rfl
      rfl
    · rintro content rfl
      exact congrArg some (fill_optional_text content)
    refine (putMembers_optional ⟨some id, some label, description.map some,
      cooperativeBonus.map some, []⟩ rfl ?_ ?_).trans ?_
    · rintro rfl
      rfl
    · rintro bonus rfl
      exact congrArg some (fill_eq
        (Decoder.optional_eq (bonus.decoder_toJson hinner) (by rintro ⟨⟩)))
    -- No field takes the members of the kind: they are kept as they are.
    exact Part.putMembers_kind _ _ _ _ kind
  · change (PartKind.ofMembers dialect kind.members >>= fun kind =>
      Except.ok (Part.mk id label (description.map some).join
        (cooperativeBonus.map some).join kind)) = _
    rw [PartKind.ofMembers_members, join_map_some, join_map_some]
    rfl

/-! ## Profiles -/

namespace Profile

/-- A profile is decoded from its JSON form wherever four levels fit. -/
theorem decoder_toJson (profile : Profile) (hroom : dialect.HasRoom 4) :
    Profile.decoder dialect (Source.ofJson profile.toJson) = .ok profile := by
  obtain ⟨inner, henter, hinner⟩ := hroom.enter
  obtain ⟨items, hitems, hpart⟩ := hinner.enter
  obtain ⟨version, parts, penalties, totalFormula, notes⟩ := profile
  have hparts : Decoder.list Part.decoder inner
      (Source.ofJson (.array (parts.map Part.toJson))) = .ok parts :=
    Decoder.list_ofJson hitems fun part _ => part.decoder_toJson hpart
  have hpenalties : Decoder.list PenaltyRule.decoder inner
      (Source.ofJson (.array (penalties.map PenaltyRule.toJson))) = .ok penalties :=
    Decoder.list_ofJson hitems fun rule _ => rule.decoder_toJson (hpart.mono (by decide))
  refine objectForm_eq ⟨some version, some parts, some penalties, some totalFormula,
    notes.map some⟩ henter ?_ ?_
  · refine (putMembers_cons
      (congrArg some (fill_eq (Decoder.word32_toNat version)))).trans ?_
    refine (putMembers_cons (congrArg some (fill_eq hparts))).trans ?_
    refine (putMembers_cons (congrArg some (fill_eq hpenalties))).trans ?_
    refine (putMembers_cons rfl).trans ?_
    refine (putMembers_optional _ (List.append_nil _).symm ?_ ?_).trans rfl
    · rintro rfl
      rfl
    · rintro content rfl
      exact congrArg some (fill_optional_text content)
  · change Except.ok (Profile.mk version parts penalties totalFormula
      (notes.map some).join) = _
    rw [join_map_some]

end Profile

/-! ## Texts -/

namespace Json

theorem readable_word (value : UInt32) : Readable (.word value) := by
  have hless := value.toNat_lt
  exact ⟨by omega, by omega⟩

theorem readable_byte (value : UInt8) : Readable (.natural value.toNat) := by
  have hless := value.toNat_lt
  exact ⟨by omega, by omega⟩

theorem readable_text (content : String) : Readable (.text content) :=
  trivial

theorem readable_float (value : Float) : Readable (.float value) :=
  trivial

theorem readable_optionalMember {α : Type} {key : String} {encode : α → Json}
    {value : Option α} (hencode : ∀ value, Readable (encode value)) :
    ∀ member ∈ optionalMember key encode value, Readable member.2 := by
  cases value with
  | none => rintro _ ⟨⟩
  | some value => exact List.forall_mem_singleton.mpr (hencode value)

end Json

open Json

theorem CooperativeBonus.readable_toJson (bonus : CooperativeBonus) :
    Readable bonus.toJson := by
  refine readableMembers_iff.mpr (List.forall_mem_append.mpr
    ⟨?_, readable_optionalMember readable_text⟩)
  simp [readable_byte, readable_word, readable_text]

theorem PenaltyRule.readable_toJson (rule : PenaltyRule) : Readable rule.toJson := by
  refine readableMembers_iff.mpr (List.forall_mem_append.mpr
    ⟨List.forall_mem_append.mpr ⟨?_, readable_optionalMember readable_text⟩, ?_⟩)
  · simp [readable_text]
  · simp [readable_word, readable_text]

theorem PartKind.readable_members (kind : PartKind) :
    ∀ member ∈ kind.members, Readable member.2 := by
  cases kind with
  | boolean truePoints => simp [PartKind.members, readable_text, readable_float]
  | number pointsPerUnit maxValue =>
    refine List.forall_mem_append.mpr ⟨?_, readable_optionalMember readable_word⟩
    simp [readable_text, readable_float]

theorem Part.readable_toJson (part : Part) : Readable part.toJson := by
  refine readableMembers_iff.mpr (List.forall_mem_append.mpr
    ⟨List.forall_mem_append.mpr ⟨List.forall_mem_append.mpr
      ⟨?_, readable_optionalMember readable_text⟩,
        readable_optionalMember CooperativeBonus.readable_toJson⟩,
      part.kind.readable_members⟩)
  simp [readable_text]

theorem Profile.readable_toJson (profile : Profile) : Readable profile.toJson := by
  have hparts : Readable (.array (profile.parts.map Part.toJson)) :=
    readableItems_iff.mpr (List.forall_mem_map.mpr fun part _ => part.readable_toJson)
  have hpenalties : Readable (.array (profile.penalties.map PenaltyRule.toJson)) :=
    readableItems_iff.mpr (List.forall_mem_map.mpr fun rule _ => rule.readable_toJson)
  refine readableMembers_iff.mpr (List.forall_mem_append.mpr
    ⟨?_, readable_optionalMember readable_text⟩)
  simp [readable_word, readable_text, hparts, hpenalties]

/-! ## What the text stands for -/

/-- What a part is worth by its kind: a unit of it, or its flag. -/
def PartKind.worth : PartKind → Float
  | number pointsPerUnit _ => pointsPerUnit
  | boolean truePoints => truePoints

/-- The kind with its worth as the text of the worth is read. -/
def PartKind.reread : PartKind → PartKind
  | number pointsPerUnit maxValue => .number (Json.reread pointsPerUnit) maxValue
  | boolean truePoints => .boolean (Json.reread truePoints)

def Part.reread (part : Part) : Part :=
  { part with kind := part.kind.reread }

namespace Profile

/-- The profile with the worth of each part as the text of the worth is read. -/
def reread (profile : Profile) : Profile :=
  { profile with parts := profile.parts.map Part.reread }

/-- No part is worth an infinity or no number at all. -/
def HasFiniteWorths (profile : Profile) : Prop :=
  ∀ part ∈ profile.parts, part.kind.worth.isFinite = true

instance (profile : Profile) : Decidable profile.HasFiniteWorths :=
  inferInstanceAs (Decidable (∀ part ∈ profile.parts, part.kind.worth.isFinite = true))

/-- The shortest digits of what each part is worth are read as the same float. -/
def WorthsReadBack (profile : Profile) : Prop :=
  ∀ part ∈ profile.parts, ReadsBack part.kind.worth

instance (profile : Profile) : Decidable profile.WorthsReadBack :=
  inferInstanceAs (Decidable (∀ part ∈ profile.parts, ReadsBack part.kind.worth))

end Profile

namespace Json

theorem membersAsWritten_append (members more : List (String × Json)) :
    membersAsWritten (members ++ more) =
      membersAsWritten members ++ membersAsWritten more := by
  simp only [membersAsWritten_eq_map, List.map_append]

theorem membersAsWritten_optionalMember {α : Type} {key : String} {encode : α → Json}
    (hencode : ∀ value, (encode value).asWritten = encode value) (value : Option α) :
    membersAsWritten (optionalMember key encode value) = optionalMember key encode value := by
  cases value with
  | none => rfl
  | some value => exact congrArg (fun value => [(key, value)]) (hencode value)

end Json

theorem CooperativeBonus.asWritten_toJson (bonus : CooperativeBonus) :
    bonus.toJson.asWritten = bonus.toJson := by
  rw [toJson, asWritten, membersAsWritten_append,
    membersAsWritten_optionalMember fun _ => rfl]
  rfl

theorem PenaltyRule.asWritten_toJson (rule : PenaltyRule) :
    rule.toJson.asWritten = rule.toJson := by
  rw [toJson, asWritten, membersAsWritten_append, membersAsWritten_append,
    membersAsWritten_optionalMember fun _ => rfl]
  rfl

theorem PartKind.asWritten_members {kind : PartKind} (hworth : kind.worth.isFinite = true) :
    membersAsWritten kind.members = kind.reread.members := by
  have hfloat : (Json.float kind.worth).asWritten = .float (Json.reread kind.worth) :=
    if_pos hworth
  cases kind with
  | boolean truePoints =>
    exact congrArg (fun value => [("type", .text "boolean"), ("truePoints", value)]) hfloat
  | number pointsPerUnit maxValue =>
    rw [members, membersAsWritten_append, membersAsWritten_optionalMember fun _ => rfl]
    exact congrArg (fun value => [("type", .text "number"), ("pointsPerUnit", value)] ++
      optionalMember "maxValue" .word maxValue) hfloat

theorem Part.asWritten_toJson {part : Part} (hworth : part.kind.worth.isFinite = true) :
    part.toJson.asWritten = part.reread.toJson := by
  rw [toJson, asWritten, membersAsWritten_append, membersAsWritten_append,
    membersAsWritten_append, membersAsWritten_optionalMember fun _ => rfl,
    membersAsWritten_optionalMember CooperativeBonus.asWritten_toJson,
    PartKind.asWritten_members hworth]
  rfl

theorem PartKind.reread_eq {kind : PartKind} (hback : ReadsBack kind.worth) :
    kind.reread = kind := by
  cases kind with
  | boolean truePoints => exact congrArg boolean hback
  | number pointsPerUnit maxValue => exact congrArg (number · maxValue) hback

theorem Part.reread_eq {part : Part} (hback : ReadsBack part.kind.worth) :
    part.reread = part := by
  rw [reread, PartKind.reread_eq hback]

namespace Profile

theorem asWritten_toJson {profile : Profile} (hworths : profile.HasFiniteWorths) :
    profile.toJson.asWritten = profile.reread.toJson := by
  have hparts : itemsAsWritten (profile.parts.map Part.toJson) =
      profile.reread.parts.map Part.toJson := by
    rw [itemsAsWritten_eq_map, reread, List.map_map, List.map_map]
    exact List.map_congr_left fun part hmem => Part.asWritten_toJson (hworths part hmem)
  have hpenalties : itemsAsWritten (profile.penalties.map PenaltyRule.toJson) =
      profile.penalties.map PenaltyRule.toJson := by
    rw [itemsAsWritten_eq_map, List.map_map]
    exact List.map_congr_left fun rule _ => rule.asWritten_toJson
  rw [toJson, asWritten, membersAsWritten_append,
    membersAsWritten_optionalMember fun _ => rfl]
  simp only [membersAsWritten, asWritten, hparts, hpenalties]
  rfl

theorem reread_eq {profile : Profile} (hback : profile.WorthsReadBack) :
    profile.reread = profile := by
  have hparts : profile.parts.map Part.reread = profile.parts :=
    (List.map_congr_left fun part hmem => Part.reread_eq (hback part hmem)).trans
      (List.map_id _)
  rw [reread, hparts]

/-- Loading the canonical text gives the profile back, up to the worths that are read as
other floats. -/
theorem ofJsonText_canonicalText {profile : Profile}
    (hworths : profile.HasFiniteWorths) :
    Profile.decoder.ofJsonText profile.canonicalText = .ok profile.reread := by
  have hroom : Dialect.jsonText.HasRoom 4 := Dialect.hasRoom_jsonText (by decide)
  refine Decoder.ofJsonText_eq (read_compact profile.readable_toJson) ?_
  rw [asWritten_toJson hworths]
  exact profile.reread.decoder_toJson hroom

/-- Decoding the text that is hashed gives the profile back where the worths of its parts
read back, equality of floats being equality of bits, so no other profile of that kind
has this text and two profiles with one text score alike. -/
theorem canonicalText_identifies (profile : Profile)
    (hworths : profile.HasFiniteWorths) (hback : profile.WorthsReadBack) :
    Profile.decoder.ofJsonText profile.canonicalText = .ok profile ∧
      ∀ other : Profile, other.HasFiniteWorths → other.WorthsReadBack →
        other.canonicalText = profile.canonicalText →
          other = profile ∧ ∀ input settings,
            scoreMatch other input settings = scoreMatch profile input settings := by
  have hdecoded := ofJsonText_canonicalText hworths
  rw [reread_eq hback] at hdecoded
  refine ⟨hdecoded, ?_⟩
  intro other hother hotherBack htext
  have hdecodedOther := ofJsonText_canonicalText hother
  rw [htext, hdecoded, reread_eq hotherBack] at hdecodedOther
  obtain rfl : profile = other := Except.ok.inj hdecodedOther
  exact ⟨rfl, fun _ _ => rfl⟩

/-- Every optional field is present, and one text needs escapes. -/
def notedProfile : Profile where
  version := 1
  parts := [
    { id := "climb", label := "Climb \"high\"\n\x01", description := some "both teams"
      cooperativeBonus := some ⟨2, 10, .perTeam, some "on the ramp"⟩
      kind := .boolean 0.1 },
    { id := "balls", label := "Balls", description := none, cooperativeBonus := none
      kind := .number 1e300 (some 50) }]
  penalties := [⟨"foul", "Foul", some "contact", 5, .opponent, .subtract⟩]
  totalFormula := "climb + balls"
  notes := some "finals"

theorem notedProfile_identified :
    notedProfile.HasFiniteWorths ∧ notedProfile.WorthsReadBack ∧
      Profile.decoder.ofJsonText notedProfile.canonicalText = .ok notedProfile := by
  have hworths : notedProfile.HasFiniteWorths := by decide +kernel
  have hback : notedProfile.WorthsReadBack := by decide +kernel
  exact ⟨hworths, hback, (canonicalText_identifies notedProfile hworths hback).1⟩

end Profile

end TournamentScoring
