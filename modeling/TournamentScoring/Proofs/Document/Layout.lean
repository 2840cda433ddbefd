import TournamentScoring.Proofs.Document.Records

/-!
# The layout of a profile or an input says nothing

Every record is a list of slots, and every decoder of a field respects the role of
the field, so a profile and an input come out of every layout of their documents.
Parts need more: the members of their kind are kept until all are read, and the tag
among them says which of them count.
-/

namespace TournamentScoring

open Document RecordDecoder

attribute [ext] CooperativeBonus.Draft PenaltyRule.Draft Profile.Draft ScoreInput.Draft

variable {dialect : Dialect} {key : String} {source : Source}

/-! ## Bonuses -/

namespace CooperativeBonus

theorem put_frame {draft next : Draft}
    (hput : recordDecoder.put dialect draft key source = some (.ok next)) :
    (key ≠ "requiredTeamCount" → next.requiredTeamCount = draft.requiredTeamCount) ∧
      (key ≠ "bonusPoints" → next.bonusPoints = draft.bonusPoints) ∧
      (key ≠ "appliesTo" → next.appliesTo = draft.appliesTo) ∧
      (key ≠ "description" → next.description = draft.description) := by
  unfold recordDecoder at hput
  dsimp only at hput
  split at hput
  all_goals first
    | cases hput
    | obtain ⟨value, rfl⟩ := exists_of_fill hput
      simp

def slots : List recordDecoder.Slot :=
  [fieldSlot _ "requiredTeamCount" .word8 Draft.requiredTeamCount
      (fun draft value => { draft with requiredTeamCount := some value })
      (fun _ _ _ => rfl) (fun _ _ => rfl) (fun _ _ _ _ _ hput => (put_frame hput).1),
    fieldSlot _ "bonusPoints" .word32 Draft.bonusPoints
      (fun draft value => { draft with bonusPoints := some value })
      (fun _ _ _ => rfl) (fun _ _ => rfl) (fun _ _ _ _ _ hput => (put_frame hput).2.1),
    fieldSlot _ "appliesTo" (.variant BonusScope.ofName?) Draft.appliesTo
      (fun draft value => { draft with appliesTo := some value })
      (fun _ _ _ => rfl) (fun _ _ => rfl) (fun _ _ _ _ _ hput => (put_frame hput).2.2.1),
    fieldSlot _ "description" (.optional .text) Draft.description
      (fun draft value => { draft with description := some value })
      (fun _ _ _ => rfl) (fun _ _ => rfl) (fun _ _ _ _ _ hput => (put_frame hput).2.2.2)]

theorem put_unknown (draft : Draft) (hkey : key ∉ recordDecoder.fields) :
    recordDecoder.put dialect draft key source = none := by
  unfold recordDecoder at hkey ⊢
  dsimp only at hkey ⊢
  split
  all_goals first
    | rfl
    | simp at hkey

theorem hasSlots : recordDecoder.HasSlots .bonus slots where
  names_eq := rfl
  nodup := by decide
  respects := by
    simp only [slots, List.forall_mem_cons]
    exact ⟨respects_fieldSlot Decoder.respects_word8,
      respects_fieldSlot Decoder.respects_word32,
      respects_fieldSlot (Decoder.respects_variant _),
      respects_fieldSlot Decoder.respects_text.optional, nofun⟩
  put_unknown _ draft _ _ := put_unknown draft
  ext draft next hgets := by
    simp only [slots, List.forall_mem_cons] at hgets
    obtain ⟨hcount, hpoints, hscope, hdescription, -⟩ := hgets
    exact Draft.ext hcount hpoints hscope hdescription
  ignores _ _ hname := hname
  item_eq _ _ _ := rfl

end CooperativeBonus

/-! ## Penalties -/

namespace PenaltyRule

theorem put_frame {draft next : Draft}
    (hput : recordDecoder.put dialect draft key source = some (.ok next)) :
    (key ≠ "id" → next.id = draft.id) ∧ (key ≠ "label" → next.label = draft.label) ∧
      (key ≠ "description" → next.description = draft.description) ∧
      (key ≠ "points" → next.points = draft.points) ∧
      (key ≠ "target" → next.target = draft.target) ∧
      (key ≠ "direction" → next.direction = draft.direction) := by
  unfold recordDecoder at hput
  dsimp only at hput
  split at hput
  all_goals first
    | cases hput
    | obtain ⟨value, rfl⟩ := exists_of_fill hput
      simp

def slots : List recordDecoder.Slot :=
  [fieldSlot _ "id" .text Draft.id (fun draft value => { draft with id := some value })
      (fun _ _ _ => rfl) (fun _ _ => rfl) (fun _ _ _ _ _ hput => (put_frame hput).1),
    fieldSlot _ "label" .text Draft.label
      (fun draft value => { draft with label := some value })
      (fun _ _ _ => rfl) (fun _ _ => rfl) (fun _ _ _ _ _ hput => (put_frame hput).2.1),
    fieldSlot _ "description" (.optional .text) Draft.description
      (fun draft value => { draft with description := some value })
      (fun _ _ _ => rfl) (fun _ _ => rfl) (fun _ _ _ _ _ hput => (put_frame hput).2.2.1),
    fieldSlot _ "points" .word32 Draft.points
      (fun draft value => { draft with points := some value })
      (fun _ _ _ => rfl) (fun _ _ => rfl)
      (fun _ _ _ _ _ hput => (put_frame hput).2.2.2.1),
    fieldSlot _ "target" (.variant PenaltyTarget.ofName?) Draft.target
      (fun draft value => { draft with target := some value })
      (fun _ _ _ => rfl) (fun _ _ => rfl)
      (fun _ _ _ _ _ hput => (put_frame hput).2.2.2.2.1),
    fieldSlot _ "direction" (.variant PenaltyDirection.ofName?) Draft.direction
      (fun draft value => { draft with direction := some value })
      (fun _ _ _ => rfl) (fun _ _ => rfl)
      (fun _ _ _ _ _ hput => (put_frame hput).2.2.2.2.2)]

theorem put_unknown (draft : Draft) (hkey : key ∉ recordDecoder.fields) :
    recordDecoder.put dialect draft key source = none := by
  unfold recordDecoder at hkey ⊢
  dsimp only at hkey ⊢
  split
  all_goals first
    | rfl
    | simp at hkey

theorem hasSlots : recordDecoder.HasSlots .penalty slots where
  names_eq := rfl
  nodup := by decide
  respects := by
    simp only [slots, List.forall_mem_cons]
    exact ⟨respects_fieldSlot Decoder.respects_text,
      respects_fieldSlot Decoder.respects_text,
      respects_fieldSlot Decoder.respects_text.optional,
      respects_fieldSlot Decoder.respects_word32,
      respects_fieldSlot (Decoder.respects_variant _),
      respects_fieldSlot (Decoder.respects_variant _), nofun⟩
  put_unknown _ draft _ _ := put_unknown draft
  ext draft next hgets := by
    simp only [slots, List.forall_mem_cons] at hgets
    obtain ⟨hid, hlabel, hdescription, hpoints, htarget, hdirection, -⟩ := hgets
    exact Draft.ext hid hlabel hdescription hpoints htarget hdirection
  ignores _ _ hname := hname
  item_eq _ _ _ := rfl

end PenaltyRule

/-! ## Inputs -/

theorem RawValue.respects_decoder : RawValue.decoder.Respects .plain :=
  Decoder.respects_whole.map RawValue.ofJson

namespace ScoreInput

theorem put_frame {draft next : Draft}
    (hput : recordDecoder.put dialect draft key source = some (.ok next)) :
    (key ≠ "values" → next.values = draft.values) ∧
      (key ≠ "penalties" → next.penalties = draft.penalties) ∧
      (key ≠ "cooperative" → next.cooperative = draft.cooperative) := by
  unfold recordDecoder at hput
  dsimp only at hput
  split at hput
  all_goals first
    | cases hput
    | obtain ⟨value, rfl⟩ := exists_of_fill hput
      simp

def slots : List recordDecoder.Slot :=
  [fieldSlot _ "values" (.table RawValue.decoder) Draft.values
      (fun draft value => { draft with values := some value })
      (fun _ _ _ => rfl) (fun _ _ => rfl) (fun _ _ _ _ _ hput => (put_frame hput).1),
    fieldSlot _ "penalties" (.table .word32) Draft.penalties
      (fun draft value => { draft with penalties := some value })
      (fun _ _ _ => rfl) (fun _ _ => rfl) (fun _ _ _ _ _ hput => (put_frame hput).2.1),
    fieldSlot _ "cooperative" (.table (.list RawValue.decoder)) Draft.cooperative
      (fun draft value => { draft with cooperative := some value })
      (fun _ _ _ => rfl) (fun _ _ => rfl) (fun _ _ _ _ _ hput => (put_frame hput).2.2)]

theorem put_unknown (draft : Draft) (hkey : key ∉ recordDecoder.fields) :
    recordDecoder.put dialect draft key source = none := by
  unfold recordDecoder at hkey ⊢
  dsimp only at hkey ⊢
  split
  all_goals first
    | rfl
    | simp at hkey

theorem hasSlots : recordDecoder.HasSlots .input slots where
  names_eq := rfl
  nodup := by decide
  respects := by
    have hgroup : (Decoder.list RawValue.decoder).Respects .plain :=
      Decoder.respects_list fun _ => RawValue.respects_decoder
    simp only [slots, List.forall_mem_cons]
    exact ⟨respects_fieldSlot (Decoder.respects_table RawValue.respects_decoder),
      respects_fieldSlot (Decoder.respects_table Decoder.respects_word32),
      respects_fieldSlot (Decoder.respects_table hgroup), nofun⟩
  put_unknown _ draft _ _ := put_unknown draft
  ext draft next hgets := by
    simp only [slots, List.forall_mem_cons] at hgets
    obtain ⟨hvalues, hpenalties, hcooperative, -⟩ := hgets
    exact Draft.ext hvalues hpenalties hcooperative
  ignores _ _ hname := hname
  item_eq _ _ _ := rfl

end ScoreInput

/-! ## Parts -/

/-- A tag that is kept is the same tag. -/
theorem KindTag.ofJson_of_keep {room : Option Nat} {value kept : Json}
    (hkept : Source.keep room (Source.ofJson value) = .ok kept) :
    KindTag.ofJson dialect kept = KindTag.ofJson dialect value := by
  cases value with
  | array items =>
    rw [Source.ofJson, Source.keep] at hkept
    obtain ⟨inner, -, hkept⟩ := bind_eq_ok_iff.mp hkept
    obtain ⟨values, -, hkept⟩ := bind_eq_ok_iff.mp hkept
    cases hkept
    rfl
  | object members =>
    rw [Source.ofJson, Source.keep] at hkept
    obtain ⟨inner, -, hkept⟩ := bind_eq_ok_iff.mp hkept
    obtain ⟨entries, -, hkept⟩ := bind_eq_ok_iff.mp hkept
    cases hkept
    rfl
  | _ =>
    cases hkept
    rfl

/-- A tag of any format is a tag of JSON. -/
theorem KindTag.ofJson_jsonValue {value : Json} {tag : KindTag}
    (htag : KindTag.ofJson dialect value = .ok tag) :
    KindTag.ofJson Dialect.jsonValue value = .ok tag := by
  cases hnumber : dialect.kindByNumber with
  | true =>
    unfold KindTag.ofJson at htag ⊢
    rw [hnumber] at htag
    exact htag
  | false =>
    unfold KindTag.ofJson at htag
    split at htag
    · exact htag
    · exact htag
    all_goals simp [hnumber] at htag

theorem valuesOf_of_onlyValue {members : List (String × Json)} {value : Json}
    (hvalue : onlyValue key members = .ok value) : valuesOf key members = [value] := by
  unfold onlyValue at hvalue
  split at hvalue
  · rename_i found hfound
    cases hvalue
    exact hfound
  · cases hvalue

/-- The kind is decided by the tag and the fields that belong to it. -/
theorem PartKind.ofMembers_congr {members others : List (String × Json)}
    (htype : valuesOf "type" others = valuesOf "type" members)
    (hfields : ∀ value tag, onlyValue "type" members = .ok value →
      KindTag.ofJson dialect value = .ok tag →
        ∀ name ∈ tag.fields, valuesOf name others = valuesOf name members) :
    PartKind.ofMembers dialect others = PartKind.ofMembers dialect members := by
  have honly : ∀ {name}, valuesOf name others = valuesOf name members →
      onlyValue name others = onlyValue name members := fun hname => by
    rw [onlyValue, onlyValue, hname]
  unfold PartKind.ofMembers
  rw [honly htype]
  cases hvalue : onlyValue "type" members with
  | error cause => rfl
  | ok value =>
    change (KindTag.ofJson dialect value >>= _) = (KindTag.ofJson dialect value >>= _)
    cases htag : KindTag.ofJson dialect value with
    | error cause => rfl
    | ok tag =>
      have hnames := hfields value tag hvalue htag
      cases tag with
      | number =>
        have hpoints := honly (hnames "pointsPerUnit" (by decide))
        have hmaximum : optionalValue "maxValue" others = optionalValue "maxValue" members := by
          rw [optionalValue, optionalValue, hnames "maxValue" (by decide)]
        simp only [hpoints, hmaximum]
        rfl
      | boolean =>
        have hpoints := honly (hnames "truePoints" (by decide))
        simp only [hpoints]
        rfl

namespace Part

theorem put_frame {draft next : Draft}
    (hput : recordDecoder.put dialect draft key source = some (.ok next)) :
    (key ≠ "id" → next.id = draft.id) ∧ (key ≠ "label" → next.label = draft.label) ∧
      (key ≠ "description" → next.description = draft.description) ∧
      (key ≠ "cooperativeBonus" → next.cooperativeBonus = draft.cooperativeBonus) ∧
      ∀ name, key ≠ name → valuesOf name next.others = valuesOf name draft.others := by
  unfold recordDecoder at hput
  dsimp only at hput
  split at hput
  -- The last case keeps the member; the others fill a field.
  case h_5 =>
    obtain ⟨value, -, rfl⟩ := map_eq_ok_iff.mp (Option.some.inj hput)
    simp only [implies_true, true_and]
    intro name hne
    rw [valuesOf_append, valuesOf_cons, if_neg hne]
    exact List.append_nil _
  all_goals
    obtain ⟨value, rfl⟩ := exists_of_fill hput
    simp

theorem put_other (draft : Draft) (hkey : key ∉ ownFields) :
    recordDecoder.put dialect draft key source =
      some ((Decoder.whole dialect source).map fun value =>
        { draft with others := draft.others ++ [(key, value)] }) := by
  unfold recordDecoder
  dsimp only
  split
  case h_5 => rfl
  all_goals exact absurd (by decide) hkey

/-- The slot of the values that are kept under a name. -/
def keptSlot (name : String) (hname : name ∉ ownFields) : recordDecoder.Slot where
  name := name
  State := List Json
  get draft := valuesOf name draft.others
  step dialect values source :=
    (Decoder.whole dialect source).map fun value => values ++ [value]
  map_put dialect draft source := by
    rw [put_other draft hname]
    cases Decoder.whole dialect source with
    | error cause => rfl
    | ok value =>
      change some (Except.ok (valuesOf name (draft.others ++ [(name, value)]))) = _
      rw [valuesOf_append, valuesOf_cons, if_pos rfl]
      rfl
  get_put _ _ _ _ _ hput hne := (put_frame hput).2.2.2.2 name hne

theorem respects_keptSlot (name : String) (hname : name ∉ ownFields)
    (hplain : Role.part.member name = .plain) : (keptSlot name hname).Respects .part := by
  intro dialect before after values next hreformats hdistinct hroom hnext
  exact Decoder.respects_whole.map _ (hplain ▸ hreformats) hdistinct hroom hnext

/-- The slots of a part of a kind. -/
def slots (tag : KindTag) : List recordDecoder.Slot :=
  [fieldSlot _ "id" .text Draft.id (fun draft value => { draft with id := some value })
      (fun _ _ _ => rfl) (fun _ _ => rfl) (fun _ _ _ _ _ hput => (put_frame hput).1),
    fieldSlot _ "label" .text Draft.label
      (fun draft value => { draft with label := some value })
      (fun _ _ _ => rfl) (fun _ _ => rfl) (fun _ _ _ _ _ hput => (put_frame hput).2.1),
    fieldSlot _ "description" (.optional .text) Draft.description
      (fun draft value => { draft with description := some value })
      (fun _ _ _ => rfl) (fun _ _ => rfl) (fun _ _ _ _ _ hput => (put_frame hput).2.2.1),
    fieldSlot _ "cooperativeBonus" (.optional CooperativeBonus.decoder) Draft.cooperativeBonus
      (fun draft value => { draft with cooperativeBonus := some value })
      (fun _ _ _ => rfl) (fun _ _ => rfl) (fun _ _ _ _ _ hput => (put_frame hput).2.2.2.1),
    keptSlot "type" (by decide)] ++
    match tag with
    | .number => [keptSlot "pointsPerUnit" (by decide), keptSlot "maxValue" (by decide)]
    | .boolean => [keptSlot "truePoints" (by decide)]

theorem map_name_slots (tag : KindTag) :
    (slots tag).map Slot.name = ownFields ++ "type" :: tag.fields := by
  cases tag <;> rfl

theorem respects_slots (tag : KindTag) : ∀ slot ∈ slots tag, slot.Respects .part := by
  refine List.forall_mem_append.mpr ⟨?_, ?_⟩
  · simp only [List.forall_mem_cons]
    exact ⟨respects_fieldSlot Decoder.respects_text,
      respects_fieldSlot Decoder.respects_text,
      respects_fieldSlot Decoder.respects_text.optional,
      respects_fieldSlot CooperativeBonus.hasSlots.respects_decoder.optional,
      respects_keptSlot _ _ rfl, nofun⟩
  · cases tag with
    | number =>
      simp only [List.forall_mem_cons]
      exact ⟨respects_keptSlot _ _ rfl, respects_keptSlot _ _ rfl, nofun⟩
    | boolean => exact List.forall_mem_singleton.mpr (respects_keptSlot _ _ rfl)

/-- A part is made of its own fields, its tag and the fields of this kind. -/
theorem finish_congr {draft next : Draft} {tag : KindTag} {value : Json}
    (hvalue : onlyValue "type" draft.others = .ok value)
    (htag : KindTag.ofJson dialect value = .ok tag)
    (hslots : ∀ slot ∈ slots tag, slot.get next = slot.get draft) :
    recordDecoder.finish dialect next = recordDecoder.finish dialect draft := by
  obtain ⟨hown, hkind⟩ := List.forall_mem_append.mp hslots
  simp only [List.forall_mem_cons] at hown
  obtain ⟨hid, hlabel, hdescription, hbonus, htype, -⟩ := hown
  have hfields : ∀ name ∈ tag.fields,
      valuesOf name next.others = valuesOf name draft.others := by
    cases tag with
    | number =>
      simp only [List.forall_mem_cons] at hkind
      simp only [KindTag.fields, List.forall_mem_cons]
      exact ⟨hkind.1, hkind.2.1, nofun⟩
    | boolean =>
      simp only [List.forall_mem_cons] at hkind
      exact List.forall_mem_singleton.mpr hkind.1
  have hofMembers : PartKind.ofMembers dialect next.others =
      PartKind.ofMembers dialect draft.others := by
    refine PartKind.ofMembers_congr htype fun found other hfound hother => ?_
    rw [hvalue] at hfound
    cases hfound
    rw [htag] at hother
    cases hother
    exact hfields
  have hidEq : next.id = draft.id := hid
  have hlabelEq : next.label = draft.label := hlabel
  have hdescriptionEq : next.description = draft.description := hdescription
  have hbonusEq : next.cooperativeBonus = draft.cooperativeBonus := hbonus
  unfold recordDecoder
  dsimp only
  rw [hidEq, hlabelEq, hdescriptionEq, hbonusEq, hofMembers]

/-- Kept values are values that were kept. -/
theorem mem_of_run_keptSlot {name : String} {hname : name ∉ ownFields}
    {values : List Json} {state result : (keptSlot name hname).State}
    (hresult : (keptSlot name hname).run dialect state values = .ok result)
    {kept : Json} (hkept : kept ∈ (show List Json from result)) :
    kept ∈ (show List Json from state) ∨
      ∃ value ∈ values, Source.keep dialect.room (Source.ofJson value) = .ok kept := by
  induction values generalizing state with
  | nil =>
    cases hresult
    exact Or.inl hkept
  | cons value values ih =>
    obtain ⟨next, hstep, hresult⟩ := bind_eq_ok_iff.mp hresult
    obtain ⟨found, hfound, rfl⟩ := map_eq_ok_iff.mp hstep
    rcases ih hresult with hmem | ⟨other, hother, hkeep⟩
    · rcases List.mem_append.mp hmem with hmem | hmem
      · exact Or.inl hmem
      · cases List.mem_singleton.mp hmem
        exact Or.inr ⟨value, List.mem_cons_self, hfound⟩
    · exact Or.inr ⟨other, List.mem_cons_of_mem _ hother, hkeep⟩

/-- The tag of a part that is decoded stands among its members. -/
theorem exists_tag {inner : Dialect} {members : List (String × Json)} {draft : Draft}
    {part : Part}
    (hdraft : recordDecoder.putMembers inner recordDecoder.start
      (Source.ofMembers members) = .ok draft)
    (hpart : recordDecoder.finish dialect draft = .ok part) :
    ∃ kept tag, onlyValue "type" draft.others = .ok kept ∧
      KindTag.ofJson dialect kept = .ok tag ∧
      ∃ value ∈ valuesOf "type" members, KindTag.ofJson dialect value = .ok tag := by
  obtain ⟨id, -, hpart⟩ := bind_eq_ok_iff.mp hpart
  obtain ⟨label, -, hpart⟩ := bind_eq_ok_iff.mp hpart
  obtain ⟨kind, hkind, hpart⟩ := bind_eq_ok_iff.mp hpart
  obtain ⟨kept, hkept, hkind⟩ := bind_eq_ok_iff.mp hkind
  obtain ⟨tag, htag, hkind⟩ := bind_eq_ok_iff.mp hkind
  have hrun := run_valuesOf_of_putMembers (keptSlot "type" (by decide)) hdraft
  have hmem : kept ∈ valuesOf "type" draft.others := by
    rw [valuesOf_of_onlyValue hkept]
    exact List.mem_singleton_self kept
  rcases mem_of_run_keptSlot hrun hmem with hnone | ⟨value, hvalue, hkeep⟩
  · cases hnone
  · exact ⟨kept, tag, hkept, htag, value, hvalue,
      (KindTag.ofJson_of_keep hkeep).symm.trans htag⟩

/-- A member without a slot is kept, if it is not a field of its own. -/
theorem put_ne_error {draft : Draft} {value : Json} (hkey : key ∉ ownFields)
    (hroom : dialect.HasRoom value.depth) (cause : ReadError) :
    recordDecoder.put dialect draft key (Source.ofJson value) ≠ some (.error cause) := by
  obtain ⟨kept, hkept⟩ := Source.exists_keep hroom
  have hwhole : Decoder.whole dialect (Source.ofJson value) = .ok kept := hkept
  rw [put_other draft hkey, hwhole]
  nofun

theorem respects_decoder : Part.decoder.Respects .part := by
  intro dialect before after part hreformats hdistinct hroom hpart
  cases before with
  | object members =>
    obtain ⟨kept, added, others, rfl, hkept, hadded, hperm⟩ := hreformats.exists_object
    obtain ⟨inner, henter, hpart⟩ := bind_eq_ok_iff.mp hpart
    obtain ⟨draft, hdraft, hpart⟩ := bind_eq_ok_iff.mp hpart
    have hinner : ∀ member ∈ others, inner.HasRoom member.2.depth := fun member hmem =>
      (hroom.of_enter henter).mono (Json.depth_le_depthMembers hmem)
    obtain ⟨found, tag, hfound, htag, value, hvalue, hvalueTag⟩ := exists_tag hdraft hpart
    -- Only the slots of this kind matter: a field of the other kind has none of them.
    have hignored : ∀ slot ∈ slots tag, ∀ member ∈ added, member.1 ≠ slot.name := by
      intro slot hslot member hmem heq
      obtain ⟨hown, htype, hkind⟩ := hadded member hmem
      have hname : member.1 ∈ ownFields ++ "type" :: tag.fields :=
        map_name_slots tag ▸ List.mem_map.mpr ⟨slot, hslot, heq.symm⟩
      rcases List.mem_append.mp hname with hmem | hmem
      · exact hown hmem
      · exact hkind value hvalue tag (KindTag.ofJson_jsonValue hvalueTag)
          (List.mem_of_ne_of_mem htype hmem)
    have hothers : ∀ member ∈ others, (∀ slot ∈ slots tag, member.1 ≠ slot.name) →
        ∀ draft cause, recordDecoder.put inner draft member.1 (Source.ofJson member.2) ≠
          some (.error cause) := by
      intro member hmem hfree draft cause
      refine put_ne_error (fun hown => ?_) (hinner member hmem) cause
      have hname : member.1 ∈ (slots tag).map Slot.name :=
        map_name_slots tag ▸ List.mem_append_left _ hown
      obtain ⟨slot, hslot, heq⟩ := List.mem_map.mp hname
      exact hfree slot hslot heq.symm
    obtain ⟨next, hnext, hslots⟩ := exists_putMembers_of_reformats
      (respects_slots tag) hkept hperm hignored hdistinct hinner hothers hdraft
    refine bind_eq_ok_iff.mpr ⟨inner, henter, bind_eq_ok_iff.mpr ⟨next, hnext, ?_⟩⟩
    exact (finish_congr hfound htag hslots).trans hpart
  | _ => cases hpart

end Part

/-! ## Profiles -/

namespace Profile

theorem put_frame {draft next : Draft}
    (hput : recordDecoder.put dialect draft key source = some (.ok next)) :
    (key ≠ "version" → next.version = draft.version) ∧
      (key ≠ "parts" → next.parts = draft.parts) ∧
      (key ≠ "penalties" → next.penalties = draft.penalties) ∧
      (key ≠ "totalFormula" → next.totalFormula = draft.totalFormula) ∧
      (key ≠ "notes" → next.notes = draft.notes) := by
  unfold recordDecoder at hput
  dsimp only at hput
  split at hput
  all_goals first
    | cases hput
    | obtain ⟨value, rfl⟩ := exists_of_fill hput
      simp

def slots : List recordDecoder.Slot :=
  [fieldSlot _ "version" .word32 Draft.version
      (fun draft value => { draft with version := some value })
      (fun _ _ _ => rfl) (fun _ _ => rfl) (fun _ _ _ _ _ hput => (put_frame hput).1),
    fieldSlot _ "parts" (.list Part.decoder) Draft.parts
      (fun draft value => { draft with parts := some value })
      (fun _ _ _ => rfl) (fun _ _ => rfl) (fun _ _ _ _ _ hput => (put_frame hput).2.1),
    fieldSlot _ "penalties" (.list PenaltyRule.decoder) Draft.penalties
      (fun draft value => { draft with penalties := some value })
      (fun _ _ _ => rfl) (fun _ _ => rfl) (fun _ _ _ _ _ hput => (put_frame hput).2.2.1),
    fieldSlot _ "totalFormula" .text Draft.totalFormula
      (fun draft value => { draft with totalFormula := some value })
      (fun _ _ _ => rfl) (fun _ _ => rfl)
      (fun _ _ _ _ _ hput => (put_frame hput).2.2.2.1),
    fieldSlot _ "notes" (.optional .text) Draft.notes
      (fun draft value => { draft with notes := some value })
      (fun _ _ _ => rfl) (fun _ _ => rfl)
      (fun _ _ _ _ _ hput => (put_frame hput).2.2.2.2)]

theorem put_unknown (draft : Draft) (hkey : key ∉ recordDecoder.fields) :
    recordDecoder.put dialect draft key source = none := by
  unfold recordDecoder at hkey ⊢
  dsimp only at hkey ⊢
  split
  all_goals first
    | rfl
    | simp at hkey

theorem item_eq_member (place : Nat) (name : String)
    (hname : recordDecoder.fields[place]? = some name) :
    Role.profile.item place = Role.profile.member name := by
  rcases place with _ | _ | _ | _ | _ | place
  all_goals cases hname
  all_goals rfl

theorem hasSlots : recordDecoder.HasSlots .profile slots where
  names_eq := rfl
  nodup := by decide
  respects := by
    have hparts : (Decoder.list Part.decoder).Respects .parts :=
      Decoder.respects_list fun _ => Part.respects_decoder
    have hpenalties : (Decoder.list PenaltyRule.decoder).Respects .penalties :=
      Decoder.respects_list fun _ => PenaltyRule.hasSlots.respects_decoder
    simp only [slots, List.forall_mem_cons]
    exact ⟨respects_fieldSlot Decoder.respects_word32, respects_fieldSlot hparts,
      respects_fieldSlot hpenalties, respects_fieldSlot Decoder.respects_text,
      respects_fieldSlot Decoder.respects_text.optional, nofun⟩
  put_unknown _ draft _ _ := put_unknown draft
  ext draft next hgets := by
    simp only [slots, List.forall_mem_cons] at hgets
    obtain ⟨hversion, hparts, hpenalties, hformula, hnotes, -⟩ := hgets
    exact Draft.ext hversion hparts hpenalties hformula hnotes
  ignores _ _ hname := hname
  item_eq := item_eq_member

end Profile

/-! ## Documents -/

/-- Whatever a decoder makes of one tree it makes of the other, in memory and where
texts spell them. -/
structure Document.Decoder.CarriesOver {α : Type} (decoder : Decoder α) (before after : Json) :
    Prop where
  ofJson : ∀ value, decoder.ofJson before = .ok value → decoder.ofJson after = .ok value
  ofJsonText : ∀ text other value, Json.read text = ⟨Source.ofJson before, false⟩ →
    Json.read other = ⟨Source.ofJson after, false⟩ → after.depth ≤ 127 →
      decoder.ofJsonText text = .ok value → decoder.ofJsonText other = .ok value

theorem Document.Decoder.ofJson_eq_ok_iff {α : Type} {decoder : Decoder α} {tree : Json}
    {value : α} :
    decoder.ofJson tree = .ok value ↔
      decoder Dialect.jsonValue (Source.ofJson tree) = .ok value := by
  rw [Decoder.ofJson]
  cases decoder Dialect.jsonValue (Source.ofJson tree) with
  | error cause => exact iff_of_false nofun nofun
  | ok found => exact Iff.rfl

theorem Document.Decoder.eq_ok_of_ofJsonText {α : Type} {decoder : Decoder α}
    {text : String} {source : Source} {value : α} (hread : Json.read text = ⟨source, false⟩)
    (hvalue : decoder.ofJsonText text = .ok value) :
    decoder Dialect.jsonText source = .ok value := by
  rw [Decoder.ofJsonText, hread] at hvalue
  dsimp only at hvalue
  cases hfound : decoder Dialect.jsonText source with
  | error cause =>
    rw [hfound] at hvalue
    cases hvalue
  | ok found =>
    rw [hfound] at hvalue
    exact hvalue

theorem Document.Decoder.Respects.carriesOver {α : Type} {decoder : Decoder α} {role : Role}
    (hdecoder : decoder.Respects role) {before after : Json}
    (hreformats : Reformats role before after) (hdistinct : before.Distinct) :
    decoder.CarriesOver before after where
  ofJson value hvalue := by
    rw [ofJson_eq_ok_iff] at hvalue ⊢
    have hroom : Dialect.jsonValue.HasRoom after.depth := nofun
    exact hdecoder hreformats hdistinct hroom hvalue
  ofJsonText text other value hread hother hdepth hvalue := by
    have hroom := Dialect.hasRoom_jsonText hdepth
    exact ofJsonText_eq hother
      (hdecoder hreformats hdistinct hroom (eq_ok_of_ofJsonText hread hvalue))

/-- A profile or an input comes out of another layout of its document unchanged, and so
do its digest and every score.  A text must not nest deeper than a reader goes. -/
theorem decoding_ignores_layout {before after : Json} (hdistinct : before.Distinct) :
    (Reformats .profile before after → Profile.decoder.CarriesOver before after) ∧
      (Reformats .input before after → ScoreInput.decoder.CarriesOver before after) :=
  ⟨fun hreformats => Profile.hasSlots.respects_decoder.carriesOver hreformats hdistinct,
    fun hreformats => ScoreInput.hasSlots.respects_decoder.carriesOver hreformats hdistinct⟩

/-- The members of a part, with its tag in front. -/
def climbMembers : List (String × Json) :=
  [("type", .text "boolean"), ("id", .text "climb"), ("label", .text "Climb"),
    ("truePoints", .float 5)]

/-- The members of a profile with one part. -/
def membersAround (part : List (String × Json)) : List (String × Json) :=
  [("version", .integer 1), ("parts", .array [.object part]),
    ("totalFormula", .text "climb")]

def climbDocument : Json :=
  .object (membersAround climbMembers)

/-- The same backwards, where the part has a field of the other kind and the profile a
member that is no field of anything. -/
def reversedClimbDocument : Json :=
  .object (membersAround (climbMembers ++ [("maxValue", Json.null)]).reverse ++
    [("season", Json.integer 2025)]).reverse

theorem climbDocument_reversed :
    climbDocument.Distinct ∧ Reformats .profile climbDocument reversedClimbDocument ∧
      Profile.decoder.ofJson reversedClimbDocument =
        .ok ⟨1, [⟨"climb", "Climb", none, none, .boolean 5⟩], [], "climb", none⟩ := by
  have hdistinct : climbDocument.Distinct := by
    simp [climbDocument, membersAround, climbMembers, Json.Distinct, Json.DistinctItems,
      Json.DistinctMembers]
  have hmaximum : ∀ member ∈ [("maxValue", Json.null)],
      Role.part.Ignores climbMembers member.1 := by
    refine List.forall_mem_singleton.mpr ⟨by decide, by decide, ?_⟩
    rintro _ (_ | ⟨_, ⟨⟩⟩) tag ⟨⟩
    decide
  have hseason : ∀ member ∈ [("season", Json.integer 2025)],
      Role.profile.Ignores (membersAround climbMembers) member.1 :=
    List.forall_mem_singleton.mpr (show "season" ∉ Profile.recordDecoder.fields by decide)
  have hpart : Reformats .part (.object climbMembers)
      (.object (climbMembers ++ [("maxValue", Json.null)]).reverse) :=
    .object (.refl _ _) hmaximum (List.reverse_perm _)
  have hreformats : Reformats .profile climbDocument reversedClimbDocument :=
    .object (.cons (.refl _ _) (.cons (.array (.cons hpart (.nil _ _))) (.refl _ _)))
      hseason (List.reverse_perm _)
  refine ⟨hdistinct, hreformats, ?_⟩
  exact ((decoding_ignores_layout hdistinct).1 hreformats).ofJson _ rfl

end TournamentScoring
