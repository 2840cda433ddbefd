import Mathlib.Data.List.Perm.Basic
import TournamentScoring.Document.InputDecoding
import TournamentScoring.Document.ProfileDecoding
import TournamentScoring.Proofs.Document.Decoding
import TournamentScoring.Proofs.KeyedTable

/-!
# One document in two layouts

A document keeps its meaning if the members of its objects are put in another order,
and if an object that stands for a record gets members that the record has no field
for.  What a value stands for depends on where it is found, its role.  A decoder
respects a role if it makes the same of a value of this role in every layout.
-/

namespace TournamentScoring

namespace Json

mutual

/-- No object repeats a key. -/
def Distinct : Json → Prop
  | array items => DistinctItems items
  | object members => (members.map (·.1)).Nodup ∧ DistinctMembers members
  | _ => True

def DistinctItems : List Json → Prop
  | [] => True
  | item :: items => Distinct item ∧ DistinctItems items

def DistinctMembers : List (String × Json) → Prop
  | [] => True
  | (_, value) :: members => Distinct value ∧ DistinctMembers members

end

mutual

/-- How deep arrays and objects nest. -/
def depth : Json → Nat
  | array items => depthItems items + 1
  | object members => depthMembers members + 1
  | _ => 0

def depthItems : List Json → Nat
  | [] => 0
  | item :: items => max (depth item) (depthItems items)

def depthMembers : List (String × Json) → Nat
  | [] => 0
  | (_, value) :: members => max (depth value) (depthMembers members)

end

theorem distinctItems_iff {items : List Json} :
    DistinctItems items ↔ ∀ item ∈ items, Distinct item := by
  induction items with
  | nil => exact iff_of_true trivial (by rintro _ ⟨⟩)
  | cons item items ih => rw [DistinctItems, ih, List.forall_mem_cons]

theorem distinctMembers_iff {members : List (String × Json)} :
    DistinctMembers members ↔ ∀ member ∈ members, Distinct member.2 := by
  induction members with
  | nil => exact iff_of_true trivial (by rintro _ ⟨⟩)
  | cons member members ih => rw [DistinctMembers, ih, List.forall_mem_cons]

theorem depth_le_depthItems {item : Json} {items : List Json} (hmem : item ∈ items) :
    item.depth ≤ depthItems items := by
  induction hmem with
  | head items => exact Nat.le_max_left _ _
  | tail other _ ih => exact Nat.le_trans ih (Nat.le_max_right _ _)

theorem depth_le_depthMembers {member : String × Json} {members : List (String × Json)}
    (hmem : member ∈ members) : member.2.depth ≤ depthMembers members := by
  induction hmem with
  | head members => exact Nat.le_max_left _ _
  | tail other _ ih => exact Nat.le_trans ih (Nat.le_max_right _ _)

end Json

/-- The fields of a part that are read where they stand. -/
def Part.ownFields : List String :=
  ["id", "label", "description", "cooperativeBonus"]

/-- The fields that belong to a kind, apart from its tag. -/
def KindTag.fields : KindTag → List String
  | number => ["pointsPerUnit", "maxValue"]
  | boolean => ["truePoints"]

namespace Document

/-! ## Layouts -/

/-- What a value stands for. -/
inductive Role
  | profile
  | parts
  | part
  | bonus
  | penalties
  | penalty
  | input
  /-- A value that is no record and has none in it. -/
  | plain

namespace Role

/-- The role of a member. -/
def member : Role → String → Role
  | profile, "parts" => parts
  | profile, "penalties" => penalties
  | part, "cooperativeBonus" => bonus
  | _, _ => plain

/-- The role of an item.  A profile in array form has its parts in the second place
and its penalties in the third. -/
def item : Role → Nat → Role
  | profile, 1 => parts
  | profile, 2 => penalties
  | parts, _ => part
  | penalties, _ => penalty
  | _, _ => plain

/-- An object with these members stands for a record that has no such field.  The
fields of the other kind are no fields of a part. -/
def Ignores : Role → List (String × Json) → String → Prop
  | profile, _, name => name ∉ Profile.recordDecoder.fields
  | part, members, name =>
    name ∉ Part.ownFields ∧ name ≠ "type" ∧
      ∀ value ∈ valuesOf "type" members, ∀ tag,
        KindTag.ofJson Dialect.jsonValue value = .ok tag → name ∉ tag.fields
  | bonus, _, name => name ∉ CooperativeBonus.recordDecoder.fields
  | penalty, _, name => name ∉ PenaltyRule.recordDecoder.fields
  | input, _, name => name ∉ ScoreInput.recordDecoder.fields
  | _, _, _ => False

end Role

mutual

/-- The same value in another layout. -/
inductive Reformats : Role → Json → Json → Prop
  | refl (role : Role) (value : Json) : Reformats role value value
  | array {role : Role} {items others : List Json} :
      ReformatsItems role 0 items others → Reformats role (.array items) (.array others)
  /-- Members are kept in any order, and others may stand among them. -/
  | object {role : Role} {members kept added others : List (String × Json)} :
      ReformatsMembers role members kept →
      (∀ member ∈ added, role.Ignores members member.1) →
      others.Perm (kept ++ added) → Reformats role (.object members) (.object others)

/-- Items from a place on. -/
inductive ReformatsItems : Role → Nat → List Json → List Json → Prop
  | nil (role : Role) (place : Nat) : ReformatsItems role place [] []
  | cons {role : Role} {place : Nat} {item other : Json} {items others : List Json} :
      Reformats (role.item place) item other →
      ReformatsItems role (place + 1) items others →
      ReformatsItems role place (item :: items) (other :: others)

inductive ReformatsMembers : Role → List (String × Json) → List (String × Json) → Prop
  | nil (role : Role) : ReformatsMembers role [] []
  | cons {role : Role} {name : String} {value other : Json}
      {members others : List (String × Json)} :
      Reformats (role.member name) value other →
      ReformatsMembers role members others →
      ReformatsMembers role ((name, value) :: members) ((name, other) :: others)

end

theorem ReformatsItems.refl (role : Role) (place : Nat) (items : List Json) :
    ReformatsItems role place items items := by
  induction items generalizing place with
  | nil => exact .nil role place
  | cons item items ih => exact .cons (.refl _ item) (ih (place + 1))

theorem ReformatsMembers.refl (role : Role) (members : List (String × Json)) :
    ReformatsMembers role members members := by
  induction members with
  | nil => exact .nil role
  | cons member members ih => exact .cons (.refl _ member.2) ih

theorem ReformatsItems.length_eq {role : Role} {place : Nat} {items others : List Json}
    (hitems : ReformatsItems role place items others) : items.length = others.length := by
  induction items generalizing place others with
  | nil =>
    cases hitems
    rfl
  | cons item items ih =>
    cases hitems with
    | cons _ hitems => rw [List.length_cons, List.length_cons, ih hitems]

namespace Reformats

variable {role : Role} {after : Json}

theorem exists_array {items : List Json} (hreformats : Reformats role (.array items) after) :
    ∃ others, after = .array others ∧ ReformatsItems role 0 items others := by
  cases hreformats with
  | refl => exact ⟨items, rfl, .refl role 0 items⟩
  | array hitems => exact ⟨_, rfl, hitems⟩

theorem exists_object {members : List (String × Json)}
    (hreformats : Reformats role (.object members) after) :
    ∃ kept added others, after = .object others ∧ ReformatsMembers role members kept ∧
      (∀ member ∈ added, role.Ignores members member.1) ∧ others.Perm (kept ++ added) := by
  cases hreformats with
  | refl =>
    exact ⟨members, [], members, rfl, .refl role members, by rintro _ ⟨⟩,
      .of_eq (List.append_nil members).symm⟩
  | object hkept hadded hperm => exact ⟨_, _, _, rfl, hkept, hadded, hperm⟩

/-- A value that is no record gets no members. -/
theorem exists_plain_object {members : List (String × Json)}
    (hreformats : Reformats .plain (.object members) after) :
    ∃ kept others, after = .object others ∧ ReformatsMembers .plain members kept ∧
      others.Perm kept := by
  obtain ⟨kept, added, others, rfl, hkept, hadded, hperm⟩ := hreformats.exists_object
  have hnone : added = [] := List.eq_nil_iff_forall_not_mem.mpr hadded
  rw [hnone, List.append_nil] at hperm
  exact ⟨kept, others, rfl, hkept, hperm⟩

end Reformats

/-! ## Members that are decoded one by one -/

/-- An entry is the decoded value of a member under its name. -/
def Decodes {α : Type} (decode : Json → Except ReadError α) (member : String × Json)
    (entry : String × α) : Prop :=
  entry.1 = member.1 ∧ decode member.2 = .ok entry.2

section

variable {α : Type} {decode : Json → Except ReadError α}

theorem map_fst_of_decodes {members : List (String × Json)} {entries : List (String × α)}
    (hentries : List.Forall₂ (Decodes decode) members entries) :
    entries.map (·.1) = members.map (·.1) := by
  induction hentries with
  | nil => rfl
  | cons hentry _ ih => rw [List.map_cons, List.map_cons, hentry.1, ih]

/-- Members in another order are decoded to the same table. -/
theorem exists_ofList_eq_of_decodes {members others : List (String × Json)}
    {entries : List (String × α)} (hperm : others.Perm members)
    (hdistinct : (entries.map (·.1)).Nodup)
    (hentries : List.Forall₂ (Decodes decode) members entries) :
    ∃ found, List.Forall₂ (Decodes decode) others found ∧
      KeyedTable.ofList found = KeyedTable.ofList entries := by
  obtain ⟨found, hfound, hfoundPerm⟩ := List.perm_comp_forall₂ hperm hentries
  have hnodup : (found.map (·.1)).Nodup :=
    (hfoundPerm.map (·.1)).nodup_iff.mpr hdistinct
  exact ⟨found, hfound, KeyedTable.ofList_eq_of_perm hfoundPerm hnodup⟩

end

/-- A walk over members decodes them one by one and collects their entries. -/
theorem walk_eq_ok_iff {α σ : Type} {decode : Source → Except ReadError α}
    {collect : σ → String × α → σ} {walk : σ → List (Label × Source) → Except ReadError σ}
    (hnil : ∀ sofar, walk sofar [] = .ok sofar)
    (hcons : ∀ sofar label source members, walk sofar ((label, source) :: members) =
      label.key >>= fun key => decode source >>= fun value =>
        walk (collect sofar (key, value)) members)
    {members : List (String × Json)} {sofar result : σ} :
    walk sofar (Source.ofMembers members) = .ok result ↔
      ∃ entries,
        List.Forall₂ (Decodes fun value => decode (Source.ofJson value)) members entries ∧
          entries.foldl collect sofar = result := by
  induction members generalizing sofar with
  | nil =>
    rw [Source.ofMembers, hnil, Except.ok.injEq]
    constructor
    · intro hresult
      exact ⟨[], .nil, hresult⟩
    · rintro ⟨entries, hentries, hresult⟩
      cases hentries
      exact hresult
  | cons member members ih =>
    obtain ⟨name, value⟩ := member
    rw [Source.ofMembers, hcons]
    constructor
    · intro hresult
      obtain ⟨key, hkey, hresult⟩ := bind_eq_ok_iff.mp hresult
      obtain ⟨found, hfound, hresult⟩ := bind_eq_ok_iff.mp hresult
      obtain ⟨entries, hentries, hfold⟩ := ih.mp hresult
      cases hkey
      exact ⟨(name, found) :: entries, .cons ⟨rfl, hfound⟩ hentries, hfold⟩
    · rintro ⟨entries, hentries, hfold⟩
      obtain ⟨entry, rest, ⟨hname, hfound⟩, hrest, rfl⟩ :=
        List.forall₂_cons_left_iff.mp hentries
      obtain ⟨key, found⟩ := entry
      cases hname
      refine bind_eq_ok_iff.mpr ⟨name, rfl, bind_eq_ok_iff.mpr ⟨found, hfound, ?_⟩⟩
      exact ih.mpr ⟨rest, hrest, hfold⟩

theorem Decoder.entries_eq_ok_iff {α : Type} {decoder : Decoder α} {dialect : Dialect}
    {members : List (String × Json)} {table : KeyedTable α} :
    Decoder.entries decoder dialect .empty (Source.ofMembers members) = .ok table ↔
      ∃ entries,
        List.Forall₂ (Decodes fun value => decoder dialect (Source.ofJson value)) members
          entries ∧
        KeyedTable.ofList entries = table :=
  walk_eq_ok_iff (fun _ => rfl) fun _ _ _ _ => rfl

theorem Source.keepMembers_eq_ok_iff {room : Option Nat}
    {members kept : List (String × Json)} :
    keepMembers room [] (ofMembers members) = .ok kept ↔
      ∃ entries, List.Forall₂ (Decodes fun value => keep room (ofJson value)) members
          entries ∧
        (KeyedTable.ofList entries).entries = kept := by
  have hwalk : keepMembers room [] (ofMembers members) = .ok kept ↔
      ∃ entries, List.Forall₂ (Decodes fun value => keep room (ofJson value)) members
          entries ∧
        entries.foldl (fun list entry => insertEntry entry.1 entry.2 list) [] = kept :=
    walk_eq_ok_iff (fun _ => by rw [keepMembers]) fun _ _ _ _ => by rw [keepMembers]
  rw [hwalk]
  simp only [KeyedTable.ofList, KeyedTable.entries_foldl_insert]
  rfl

/-! ## Kept values -/

mutual

/-- A value that is kept whole comes out the same from every layout, as its keys are
put in order. -/
theorem Source.keep_reformatted {room : Option Nat} {before after kept : Json}
    (hreformats : Reformats .plain before after) (hdistinct : before.Distinct)
    (hkept : keep room (ofJson before) = .ok kept) : keep room (ofJson after) = .ok kept := by
  match before with
  | .null | .boolean _ | .integer _ | .float _ | .text _ =>
    cases hreformats
    exact hkept
  | .array items =>
    obtain ⟨others, rfl, hitems⟩ := hreformats.exists_array
    rw [ofJson, keep] at hkept ⊢
    obtain ⟨inner, hinner, hkept⟩ := bind_eq_ok_iff.mp hkept
    obtain ⟨values, hvalues, hkept⟩ := bind_eq_ok_iff.mp hkept
    refine bind_eq_ok_iff.mpr ⟨inner, hinner, bind_eq_ok_iff.mpr ⟨values, ?_, hkept⟩⟩
    exact keepItems_reformatted hitems hdistinct hvalues
  | .object members =>
    obtain ⟨others, found, rfl, hmembers, hperm⟩ := hreformats.exists_plain_object
    rw [ofJson, keep] at hkept ⊢
    obtain ⟨inner, hinner, hkept⟩ := bind_eq_ok_iff.mp hkept
    obtain ⟨list, hlist, hkept⟩ := bind_eq_ok_iff.mp hkept
    refine bind_eq_ok_iff.mpr ⟨inner, hinner, bind_eq_ok_iff.mpr ⟨list, ?_, hkept⟩⟩
    rw [keepMembers_eq_ok_iff] at hlist ⊢
    obtain ⟨entries, hentries, hlist⟩ := hlist
    have hkeys : (entries.map (·.1)).Nodup := map_fst_of_decodes hentries ▸ hdistinct.1
    obtain ⟨table, htable, heq⟩ := exists_ofList_eq_of_decodes hperm hkeys
      (keepMembers_reformatted hmembers hdistinct.2 hentries)
    exact ⟨table, htable, heq ▸ hlist⟩
termination_by structural before

theorem Source.keepItems_reformatted {room : Option Nat} {place : Nat}
    {items others values : List Json} (hreformats : ReformatsItems .plain place items others)
    (hdistinct : Json.DistinctItems items)
    (hvalues : keepItems room (ofItems items) = .ok values) :
    keepItems room (ofItems others) = .ok values := by
  match items with
  | [] =>
    cases hreformats
    exact hvalues
  | item :: items =>
    cases hreformats with
    | cons hitem hitems =>
      rw [ofItems, keepItems] at hvalues ⊢
      obtain ⟨value, hvalue, hvalues⟩ := bind_eq_ok_iff.mp hvalues
      obtain ⟨rest, hrest, hvalues⟩ := bind_eq_ok_iff.mp hvalues
      refine bind_eq_ok_iff.mpr ⟨value, ?_, bind_eq_ok_iff.mpr ⟨rest, ?_, hvalues⟩⟩
      · exact Source.keep_reformatted hitem hdistinct.1 hvalue
      · exact Source.keepItems_reformatted hitems hdistinct.2 hrest
termination_by structural items

theorem Source.keepMembers_reformatted {room : Option Nat}
    {members others : List (String × Json)} {entries : List (String × Json)}
    (hreformats : ReformatsMembers .plain members others)
    (hdistinct : Json.DistinctMembers members)
    (hentries : List.Forall₂ (Decodes fun value => keep room (ofJson value)) members
      entries) :
    List.Forall₂ (Decodes fun value => keep room (ofJson value)) others entries := by
  match members with
  | [] =>
    cases hreformats
    exact hentries
  | (name, value) :: members =>
    cases hreformats with
    | cons hvalue hmembers =>
      obtain ⟨entry, rest, ⟨hname, hkept⟩, hrest, rfl⟩ :=
        List.forall₂_cons_left_iff.mp hentries
      refine .cons ⟨hname, ?_⟩ ?_
      · exact Source.keep_reformatted hvalue hdistinct.1 hkept
      · exact Source.keepMembers_reformatted hmembers hdistinct.2 hrest
termination_by structural members

end

mutual

/-- A value can be kept where there is room for it. -/
theorem Source.exists_keep {dialect : Dialect} {value : Json}
    (hroom : dialect.HasRoom value.depth) :
    ∃ kept, keep dialect.room (ofJson value) = .ok kept := by
  match value with
  | .null | .boolean _ | .integer _ | .float _ | .text _ => exact ⟨_, rfl⟩
  | .array items =>
    obtain ⟨inner, henter, hinner⟩ := hroom.enter
    obtain ⟨room, hroom, rfl⟩ := map_eq_ok_iff.mp henter
    obtain ⟨values, hvalues⟩ := exists_keepItems hinner
    rw [ofJson, keep]
    exact ⟨_, bind_eq_ok_iff.mpr ⟨room, hroom, bind_eq_ok_iff.mpr ⟨values, hvalues, rfl⟩⟩⟩
  | .object members =>
    obtain ⟨inner, henter, hinner⟩ := hroom.enter
    obtain ⟨room, hroom, rfl⟩ := map_eq_ok_iff.mp henter
    obtain ⟨entries, hentries⟩ := exists_keepMembers hinner []
    rw [ofJson, keep]
    exact ⟨_, bind_eq_ok_iff.mpr ⟨room, hroom, bind_eq_ok_iff.mpr ⟨entries, hentries, rfl⟩⟩⟩
termination_by structural value

theorem Source.exists_keepItems {dialect : Dialect} {items : List Json}
    (hroom : dialect.HasRoom (Json.depthItems items)) :
    ∃ values, keepItems dialect.room (ofItems items) = .ok values := by
  match items with
  | [] => exact ⟨_, rfl⟩
  | item :: items =>
    obtain ⟨value, hvalue⟩ : ∃ value, keep dialect.room (ofJson item) = .ok value :=
      exists_keep (hroom.mono (Nat.le_max_left _ _))
    obtain ⟨values, hvalues⟩ : ∃ values,
        keepItems dialect.room (ofItems items) = .ok values :=
      exists_keepItems (hroom.mono (Nat.le_max_right _ _))
    rw [ofItems, keepItems]
    exact ⟨_, bind_eq_ok_iff.mpr ⟨value, hvalue, bind_eq_ok_iff.mpr ⟨values, hvalues, rfl⟩⟩⟩
termination_by structural items

theorem Source.exists_keepMembers {dialect : Dialect} {members : List (String × Json)}
    (hroom : dialect.HasRoom (Json.depthMembers members)) (sofar : List (String × Json)) :
    ∃ entries, keepMembers dialect.room sofar (ofMembers members) = .ok entries := by
  match members with
  | [] => exact ⟨_, rfl⟩
  | (name, value) :: members =>
    obtain ⟨kept, hkept⟩ : ∃ kept, keep dialect.room (ofJson value) = .ok kept :=
      exists_keep (hroom.mono (Nat.le_max_left _ _))
    obtain ⟨entries, hentries⟩ : ∃ entries, keepMembers dialect.room
        (insertEntry name kept sofar) (ofMembers members) = .ok entries :=
      exists_keepMembers (hroom.mono (Nat.le_max_right _ _)) _
    rw [ofMembers, keepMembers]
    exact ⟨entries, bind_eq_ok_iff.mpr
      ⟨name, rfl, bind_eq_ok_iff.mpr ⟨kept, hkept, hentries⟩⟩⟩
termination_by structural members

end

/-! ## Respecting a layout -/

/-- A decoder makes the same of a value of a role in every layout, where there is room
for it. -/
def Decoder.Respects {α : Type} (decoder : Decoder α) (role : Role) : Prop :=
  ∀ ⦃dialect : Dialect⦄ ⦃before after : Json⦄ ⦃value : α⦄, Reformats role before after →
    before.Distinct → dialect.HasRoom after.depth →
      decoder dialect (Source.ofJson before) = .ok value →
        decoder dialect (Source.ofJson after) = .ok value

theorem Dialect.HasRoom.of_enter {dialect inner : Dialect} {depth : Nat}
    (hroom : dialect.HasRoom (depth + 1)) (henter : dialect.enter = .ok inner) :
    inner.HasRoom depth := by
  obtain ⟨other, hother, hdepth⟩ := hroom.enter
  rw [henter] at hother
  cases hother
  exact hdepth

namespace Decoder

variable {α : Type} {decoder : Decoder α} {role : Role}

theorem respects_whole : whole.Respects .plain := by
  intro dialect before after value hreformats hdistinct _ hvalue
  exact Source.keep_reformatted hreformats hdistinct hvalue

theorem respects_text : text.Respects role := by
  intro dialect before after value hreformats _ _ hvalue
  cases before with
  | text content =>
    cases hreformats
    exact hvalue
  | _ => cases hvalue

theorem respects_natural (bound : Nat) : (natural bound).Respects role := by
  intro dialect before after value hreformats _ _ hvalue
  cases before with
  | integer number =>
    cases hreformats
    exact hvalue
  | _ => cases hvalue

theorem Respects.map {β : Type} (hdecoder : decoder.Respects role) (next : α → β) :
    Decoder.Respects (fun dialect source => (decoder dialect source).map next) role := by
  intro dialect before after value hreformats hdistinct hroom hvalue
  obtain ⟨found, hfound, hnext⟩ := map_eq_ok_iff.mp hvalue
  exact map_eq_ok_iff.mpr ⟨found, hdecoder hreformats hdistinct hroom hfound, hnext⟩

theorem respects_word32 : word32.Respects role :=
  (respects_natural UInt32.size).map UInt32.ofNat

theorem respects_word8 : word8.Respects role :=
  (respects_natural UInt8.size).map UInt8.ofNat

theorem optional_ofJson {dialect : Dialect} {value : Json} (hvalue : value ≠ .null) :
    optional decoder dialect (Source.ofJson value) =
      (decoder dialect (Source.ofJson value)).map some := by
  cases value with
  | null => exact absurd rfl hvalue
  | _ => rfl

theorem Respects.optional (hdecoder : decoder.Respects role) :
    (optional decoder).Respects role := by
  intro dialect before after value hreformats hdistinct hroom hvalue
  by_cases hbefore : before = .null
  · subst hbefore
    cases hreformats
    exact hvalue
  · have hafter : after ≠ .null := by
      rintro rfl
      cases hreformats
      exact hbefore rfl
    rw [optional_ofJson hbefore] at hvalue
    rw [optional_ofJson hafter]
    exact hdecoder.map some hreformats hdistinct hroom hvalue

/-- The content of a variant has only one layout. -/
theorem respects_emptyContent : emptyContent.Respects .plain := by
  intro dialect before after value hreformats _ _ hvalue
  cases before with
  | array items =>
    obtain ⟨others, rfl, hitems⟩ := hreformats.exists_array
    cases hitems with
    | nil => exact hvalue
    | cons hitem hitems =>
      unfold emptyContent at hvalue
      simp only [Source.ofJson, Source.ofItems, ite_self] at hvalue
      cases hvalue
  | object members =>
    obtain ⟨kept, others, rfl, hmembers, hperm⟩ := hreformats.exists_plain_object
    cases hmembers with
    | nil =>
      cases hperm.eq_nil
      exact hvalue
    | cons hmember hmembers =>
      unfold emptyContent at hvalue
      simp only [Source.ofJson, Source.ofMembers, ite_self] at hvalue
      cases hvalue
  | _ =>
    cases hreformats
    exact hvalue

/-- A variant in object form has only one member, so there is nothing to reorder. -/
theorem respects_variant (ofName : String → Option α) :
    (variant ofName).Respects .plain := by
  intro dialect before after value hreformats hdistinct hroom hvalue
  cases before with
  | text name =>
    cases hreformats
    exact hvalue
  | object members =>
    obtain ⟨kept, others, rfl, hkept, hperm⟩ := hreformats.exists_plain_object
    rw [Source.ofJson, variant] at hvalue ⊢
    obtain ⟨inner, henter, hvalue⟩ := bind_eq_ok_iff.mp hvalue
    refine bind_eq_ok_iff.mpr ⟨inner, henter, ?_⟩
    cases hkept with
    | nil => cases hvalue
    | cons hcontent hrest =>
      obtain ⟨key, hkey, hvalue⟩ := bind_eq_ok_iff.mp hvalue
      obtain ⟨found, hfound, hvalue⟩ := bind_eq_ok_iff.mp hvalue
      obtain ⟨empty, hempty, hvalue⟩ := bind_eq_ok_iff.mp hvalue
      cases hrest with
      | nil =>
        cases hperm.eq_singleton
        refine bind_eq_ok_iff.mpr ⟨key, hkey, bind_eq_ok_iff.mpr ⟨found, hfound,
          bind_eq_ok_iff.mpr ⟨empty, ?_, hvalue⟩⟩⟩
        exact respects_emptyContent hcontent hdistinct.2.1
          ((hroom.of_enter henter).mono (Nat.le_max_left _ _)) hempty
      | cons => cases hvalue
  | _ => cases hvalue

theorem items_reformatted {dialect : Dialect} {place : Nat} {items others : List Json}
    {values : List α} (hdecoder : ∀ place, decoder.Respects (role.item place))
    (hreformats : ReformatsItems role place items others)
    (hdistinct : Json.DistinctItems items)
    (hroom : ∀ item ∈ others, dialect.HasRoom item.depth)
    (hvalues : Decoder.items decoder dialect (Source.ofItems items) = .ok values) :
    Decoder.items decoder dialect (Source.ofItems others) = .ok values := by
  induction items generalizing place others values with
  | nil =>
    cases hreformats
    exact hvalues
  | cons item items ih =>
    cases hreformats with
    | cons hitem hitems =>
      obtain ⟨hfirst, hothers⟩ := List.forall_mem_cons.mp hroom
      rw [Source.ofItems, Decoder.items] at hvalues ⊢
      obtain ⟨value, hvalue, hvalues⟩ := bind_eq_ok_iff.mp hvalues
      obtain ⟨rest, hrest, hvalues⟩ := bind_eq_ok_iff.mp hvalues
      refine bind_eq_ok_iff.mpr ⟨value, ?_, bind_eq_ok_iff.mpr ⟨rest, ?_, hvalues⟩⟩
      · exact hdecoder place hitem hdistinct.1 hfirst hvalue
      · exact ih hitems hdistinct.2 hothers hrest

theorem respects_list (hdecoder : ∀ place, decoder.Respects (role.item place)) :
    (list decoder).Respects role := by
  intro dialect before after values hreformats hdistinct hroom hvalues
  cases before with
  | array items =>
    obtain ⟨others, rfl, hitems⟩ := hreformats.exists_array
    rw [Source.ofJson, list] at hvalues ⊢
    obtain ⟨inner, henter, hvalues⟩ := bind_eq_ok_iff.mp hvalues
    obtain ⟨found, hfound, hend⟩ := bind_eq_ok_iff.mp hvalues
    have hothers : ∀ item ∈ others, inner.HasRoom item.depth := fun item hmem =>
      (hroom.of_enter henter).mono (Json.depth_le_depthItems hmem)
    refine bind_eq_ok_iff.mpr ⟨inner, henter, bind_eq_ok_iff.mpr ⟨found, ?_, hend⟩⟩
    exact items_reformatted hdecoder hitems hdistinct hothers hfound
  | _ => cases hvalues

theorem decodes_reformatted {dialect : Dialect} {members others : List (String × Json)}
    {entries : List (String × α)} (hdecoder : decoder.Respects .plain)
    (hreformats : ReformatsMembers .plain members others)
    (hdistinct : Json.DistinctMembers members)
    (hroom : ∀ member ∈ others, dialect.HasRoom member.2.depth)
    (hentries : List.Forall₂ (Decodes fun value => decoder dialect (Source.ofJson value))
      members entries) :
    List.Forall₂ (Decodes fun value => decoder dialect (Source.ofJson value)) others
      entries := by
  induction members generalizing others entries with
  | nil =>
    cases hreformats
    exact hentries
  | cons member members ih =>
    cases hreformats with
    | cons hvalue hmembers =>
      obtain ⟨hfirst, hothers⟩ := List.forall_mem_cons.mp hroom
      obtain ⟨entry, rest, ⟨hname, hfound⟩, hrest, rfl⟩ :=
        List.forall₂_cons_left_iff.mp hentries
      refine .cons ⟨hname, ?_⟩ ?_
      · exact hdecoder hvalue hdistinct.1 hfirst hfound
      · exact ih hmembers hdistinct.2 hothers hrest

theorem respects_table (hdecoder : decoder.Respects .plain) :
    (table decoder).Respects .plain := by
  intro dialect before after values hreformats hdistinct hroom hvalues
  cases before with
  | object members =>
    obtain ⟨kept, others, rfl, hkept, hperm⟩ := hreformats.exists_plain_object
    rw [Source.ofJson, table] at hvalues ⊢
    obtain ⟨inner, henter, hvalues⟩ := bind_eq_ok_iff.mp hvalues
    obtain ⟨found, hfound, hend⟩ := bind_eq_ok_iff.mp hvalues
    have hroomKept : ∀ member ∈ kept, inner.HasRoom member.2.depth := fun member hmem =>
      (hroom.of_enter henter).mono (Json.depth_le_depthMembers (hperm.mem_iff.mpr hmem))
    refine bind_eq_ok_iff.mpr ⟨inner, henter, bind_eq_ok_iff.mpr ⟨found, ?_, hend⟩⟩
    obtain ⟨entries, hentries, rfl⟩ := entries_eq_ok_iff.mp hfound
    have hkeys : (entries.map (·.1)).Nodup := map_fst_of_decodes hentries ▸ hdistinct.1
    obtain ⟨found, hfound, heq⟩ := exists_ofList_eq_of_decodes hperm hkeys
      (decodes_reformatted hdecoder hkept hdistinct.2 hroomKept hentries)
    exact entries_eq_ok_iff.mpr ⟨found, hfound, heq⟩
  | _ => cases hvalues

end Decoder

end Document

end TournamentScoring
