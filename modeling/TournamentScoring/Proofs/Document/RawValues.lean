import TournamentScoring.Proofs.Binary64.Negation
import TournamentScoring.Proofs.Decimal.Reading
import TournamentScoring.Proofs.Document.Keeping
import TournamentScoring.Proofs.Document.Layout

/-!
# Raw values are read whatever they are

Flags and numbers are read as such, and every other value is kept, with its keys in order.
So a document of an input is refused for the shape of its tables alone, never for a raw
value in them.
-/

namespace TournamentScoring

open Document Document.RecordDecoder
open TournamentScoring.Binary64

/-! ## Whole numbers -/

theorem Decimal.rounds_ofNat (number : ℕ) :
    Rounds number (Float.ofNat number).toModel.unpack := by
  rcases Nat.eq_zero_or_pos number with rfl | hpos
  · exact_mod_cast rounds_zero .positive
  · have hrounds := rounds_ofScientific_mul hpos 0
    rwa [pow_zero, mul_one] at hrounds

theorem Decimal.rounds_ofInt (number : ℤ) :
    Rounds number (Float.ofInt number).toModel.unpack := by
  cases number with
  | ofNat magnitude => exact_mod_cast rounds_ofNat magnitude
  | negSucc magnitude =>
    have hrounds := (rounds_ofNat (magnitude + 1)).neg
    rwa [← Int.cast_natCast, ← Int.cast_neg] at hrounds

/-! ## Kept values -/

namespace Json

/-- The same value with the keys of its objects in order. -/
structure IsKeptAs (value kept : Json) : Prop where
  reformats : Reformats .plain value kept
  ordered : kept.Ordered
  eq_of_ordered : value.Ordered → kept = value

end Json

theorem KeyedTable.entries_ofList_perm {α : Type} {entries : List (String × α)}
    (hnodup : (entries.map (·.1)).Nodup) : (ofList entries).entries.Perm entries := by
  have hkeys := nodup_map_fst (ofList entries).ordered
  apply (List.perm_ext_iff_of_nodup hkeys.of_map hnodup.of_map).mpr
  rintro ⟨key, value⟩
  rw [← lookup_eq_some_iff_mem hkeys, ← lookup_eq_some_iff_mem hnodup]
  have hreverse := lookup_eq_of_perm (List.reverse_perm entries)
    (nodup_map_fst_reverse hnodup) key
  rw [← hreverse, ← get?_ofList]
  rfl

namespace Document.Source

mutual

theorem reformats_keep {room : Option ℕ} {value kept : Json} (hdistinct : value.Distinct)
    (hkept : keep room (ofJson value) = .ok kept) :
    Reformats .plain value kept ∧ kept.Ordered := by
  match value with
  | .null | .boolean _ | .integer _ | .float _ | .text _ =>
    cases hkept
    exact ⟨.refl _ _, trivial⟩
  | .array items =>
    rw [ofJson, keep] at hkept
    obtain ⟨inner, -, hkept⟩ := bind_eq_ok_iff.mp hkept
    obtain ⟨values, hvalues, hkept⟩ := bind_eq_ok_iff.mp hkept
    cases hkept
    obtain ⟨hitems, hordered⟩ := reformatsItems_keepItems 0 hdistinct hvalues
    exact ⟨.array hitems, hordered⟩
  | .object members =>
    rw [ofJson, keep] at hkept
    obtain ⟨inner, -, hkept⟩ := bind_eq_ok_iff.mp hkept
    obtain ⟨list, hlist, hkept⟩ := bind_eq_ok_iff.mp hkept
    cases hkept
    obtain ⟨entries, hentries, rfl⟩ := keepMembers_eq_ok_iff.mp hlist
    obtain ⟨hmembers, hordered⟩ := reformatsMembers_keepMembers hdistinct.2 hentries
    have hperm := KeyedTable.entries_ofList_perm (map_fst_of_decodes hentries ▸ hdistinct.1)
    constructor
    · apply Reformats.object hmembers (List.forall_mem_nil _)
      rwa [List.append_nil]
    · refine ⟨(KeyedTable.ofList entries).ordered, Json.orderedMembers_iff.mpr ?_⟩
      intro member hmember
      exact Json.orderedMembers_iff.mp hordered member (hperm.mem_iff.mp hmember)
termination_by structural value

theorem reformatsItems_keepItems {room : Option ℕ} {items values : List Json} (place : ℕ)
    (hdistinct : Json.DistinctItems items)
    (hvalues : keepItems room (ofItems items) = .ok values) :
    ReformatsItems .plain place items values ∧ Json.OrderedItems values := by
  match items with
  | [] =>
    cases hvalues
    exact ⟨.nil _ _, trivial⟩
  | item :: items =>
    rw [ofItems, keepItems] at hvalues
    obtain ⟨value, hvalue, hvalues⟩ := bind_eq_ok_iff.mp hvalues
    obtain ⟨rest, hrest, hvalues⟩ := bind_eq_ok_iff.mp hvalues
    cases hvalues
    obtain ⟨hitem, hfirst⟩ := reformats_keep hdistinct.1 hvalue
    obtain ⟨hitems, hordered⟩ := reformatsItems_keepItems (place + 1) hdistinct.2 hrest
    exact ⟨.cons hitem hitems, hfirst, hordered⟩
termination_by structural items

theorem reformatsMembers_keepMembers {room : Option ℕ} {members entries : List (String × Json)}
    (hdistinct : Json.DistinctMembers members)
    (hentries : List.Forall₂ (Decodes fun value => keep room (ofJson value)) members entries) :
    ReformatsMembers .plain members entries ∧ Json.OrderedMembers entries := by
  match members with
  | [] =>
    cases hentries
    exact ⟨.nil _, trivial⟩
  | (name, value) :: members =>
    obtain ⟨entry, rest, ⟨hname, hkept⟩, hrest, rfl⟩ := List.forall₂_cons_left_iff.mp hentries
    obtain ⟨key, kept⟩ := entry
    cases hname
    obtain ⟨hvalue, hfirst⟩ := reformats_keep hdistinct.1 hkept
    obtain ⟨hmembers, hordered⟩ := reformatsMembers_keepMembers hdistinct.2 hrest
    exact ⟨.cons hvalue hmembers, hfirst, hordered⟩
termination_by structural members

end

/-- A value in memory is kept where there is room for it. -/
theorem exists_isKeptAs {dialect : Dialect} {value : Json} (hdistinct : value.Distinct)
    (hroom : dialect.HasRoom value.depth) :
    ∃ kept, keep dialect.room (ofJson value) = .ok kept ∧ value.IsKeptAs kept := by
  obtain ⟨kept, hkept⟩ := exists_keep hroom
  obtain ⟨hreformats, hordered⟩ := reformats_keep hdistinct hkept
  refine ⟨kept, hkept, hreformats, hordered, ?_⟩
  intro hvalue
  rw [keep_ofJson hvalue hroom] at hkept
  exact (Except.ok.inj hkept).symm

end Document.Source

/-! ## Raw values -/

/-- How a raw value is read: a flag as it is, a number as the nearest float, and every other
value is kept. -/
inductive RawValue.Reads : Json → RawValue → Prop
  | boolean (value : Bool) : Reads (.boolean value) (.flag value)
  | integer {number : ℤ} {value : Float} (hrounds : Rounds number value.toModel.unpack) :
    Reads (.integer number) (.number value)
  | float (value : Float) : Reads (.float value) (.number value)
  | null : Reads .null (.other .null)
  | text (content : String) : Reads (.text content) (.other (.text content))
  | array {items : List Json} {kept : Json} (hkept : (Json.array items).IsKeptAs kept) :
    Reads (.array items) (.other kept)
  | object {members : List (String × Json)} {kept : Json}
      (hkept : (Json.object members).IsKeptAs kept) :
    Reads (.object members) (.other kept)

/-- A group is read value by value. -/
def RawValue.ReadsGroup (value : Json) (group : List RawValue) : Prop :=
  ∃ items, value = .array items ∧ List.Forall₂ Reads items group

theorem RawValue.exists_decoder_eq_ok {dialect : Dialect} {value : Json}
    (hdistinct : value.Distinct) (hroom : dialect.HasRoom value.depth) :
    ∃ raw, RawValue.decoder dialect (Source.ofJson value) = .ok raw ∧ Reads value raw := by
  obtain ⟨kept, hkeep, hkept⟩ := Source.exists_isKeptAs hdistinct hroom
  refine ⟨ofJson kept, map_eq_ok_iff.mpr ⟨kept, hkeep, rfl⟩, ?_⟩
  cases value with
  | null =>
    cases hkept.eq_of_ordered trivial
    exact .null
  | boolean value =>
    cases hkept.eq_of_ordered trivial
    exact .boolean value
  | integer number =>
    cases hkept.eq_of_ordered trivial
    exact .integer (Decimal.rounds_ofInt number)
  | float value =>
    cases hkept.eq_of_ordered trivial
    exact .float value
  | text content =>
    cases hkept.eq_of_ordered trivial
    exact .text content
  | array items =>
    obtain ⟨others, rfl, -⟩ := hkept.reformats.exists_array
    exact .array hkept
  | object members =>
    obtain ⟨kept, others, rfl, -, -⟩ := hkept.reformats.exists_plain_object
    exact .object hkept

/-! ## Groups and tables -/

section Containers

variable {α : Type} {decoder : Decoder α} {dialect : Dialect} {reads : Json → α → Prop}

theorem exists_items_eq_ok {items : List Json}
    (hitems : ∀ item ∈ items, ∃ value, decoder dialect (Source.ofJson item) = .ok value ∧
      reads item value) :
    ∃ values, Decoder.items decoder dialect (Source.ofItems items) = .ok values ∧
      List.Forall₂ reads items values := by
  induction items with
  | nil => exact ⟨[], rfl, .nil⟩
  | cons item items ih =>
    obtain ⟨⟨value, hvalue, hreads⟩, hitems⟩ := List.forall_mem_cons.mp hitems
    obtain ⟨values, hvalues, hall⟩ := ih hitems
    refine ⟨value :: values, ?_, .cons hreads hall⟩
    exact bind_eq_ok_iff.mpr ⟨value, hvalue, bind_eq_ok_iff.mpr ⟨values, hvalues, rfl⟩⟩

theorem exists_entries_of_members {members : List (String × Json)}
    (hmembers : ∀ member ∈ members, ∃ value,
      decoder dialect (Source.ofJson member.2) = .ok value ∧ reads member.2 value) :
    ∃ entries,
      List.Forall₂ (Decodes fun value => decoder dialect (Source.ofJson value)) members entries ∧
        ∀ key, Option.Rel reads (members.lookup key) (entries.lookup key) := by
  induction members with
  | nil => exact ⟨[], .nil, fun key => .none⟩
  | cons member members ih =>
    obtain ⟨⟨value, hvalue, hreads⟩, hmembers⟩ := List.forall_mem_cons.mp hmembers
    obtain ⟨entries, hentries, hall⟩ := ih hmembers
    refine ⟨(member.1, value) :: entries, .cons ⟨rfl, hvalue⟩ hentries, ?_⟩
    intro key
    rw [KeyedTable.lookup_cons_eq_ite, KeyedTable.lookup_cons_eq_ite]
    split
    · exact .some hreads
    · exact hall key

/-- An object is decoded to a table that has what its members say and nothing else. -/
theorem exists_table_eq_ok {members : List (String × Json)}
    (hdistinct : (members.map (·.1)).Nodup)
    (hroom : dialect.HasRoom (Json.object members).depth)
    (hmembers : ∀ member ∈ members, ∀ inner, inner.HasRoom member.2.depth →
      ∃ value, decoder inner (Source.ofJson member.2) = .ok value ∧ reads member.2 value) :
    ∃ table, Decoder.table decoder dialect (Source.ofJson (.object members)) = .ok table ∧
      ∀ key, Option.Rel reads (members.lookup key) (table.get? key) := by
  obtain ⟨inner, henter, hinner⟩ := hroom.enter
  obtain ⟨entries, hentries, hall⟩ := exists_entries_of_members fun member hmember =>
    hmembers member hmember inner (hinner.mono (Json.depth_le_depthMembers hmember))
  refine ⟨.ofList entries, ?_, ?_⟩
  · exact bind_eq_ok_iff.mpr ⟨inner, henter, bind_eq_ok_iff.mpr
      ⟨_, Decoder.entries_eq_ok_iff.mpr ⟨entries, hentries, rfl⟩, rfl⟩⟩
  · intro key
    have hnodup := map_fst_of_decodes hentries ▸ hdistinct
    rw [KeyedTable.get?_ofList, ← KeyedTable.lookup_eq_of_perm (List.reverse_perm entries).symm
      hnodup]
    exact hall key

end Containers

theorem RawValue.exists_group_eq_ok {dialect : Dialect} {items : List Json}
    (hdistinct : (Json.array items).Distinct)
    (hroom : dialect.HasRoom (Json.array items).depth) :
    ∃ group, Decoder.list RawValue.decoder dialect (Source.ofJson (.array items)) = .ok group ∧
      ReadsGroup (.array items) group := by
  obtain ⟨inner, henter, hinner⟩ := hroom.enter
  obtain ⟨group, hgroup, hall⟩ := exists_items_eq_ok fun item hitem =>
    exists_decoder_eq_ok (Json.distinctItems_iff.mp hdistinct item hitem)
      (hinner.mono (Json.depth_le_depthItems hitem))
  refine ⟨group, ?_, items, rfl, hall⟩
  exact bind_eq_ok_iff.mpr ⟨inner, henter, bind_eq_ok_iff.mpr ⟨group, hgroup, rfl⟩⟩

/-! ## Inputs -/

namespace Json

/-- The members of a table of a document; a table that is left out has none. -/
def tableMembers (name : String) (members : List (String × Json)) : List (String × Json) :=
  match members.lookup name with
  | some (.object entries) => entries
  | _ => []

/-- A table is an object, if it is there, and its values are of a form. -/
def HasTable (name : String) (form : Json → Prop) (members : List (String × Json)) : Prop :=
  ∀ value, members.lookup name = some value →
    ∃ entries, value = .object entries ∧ ∀ entry ∈ entries, form entry.2

/-- A whole number in the range of counts. -/
def IsCount (value : Json) (count : UInt32) : Prop :=
  value = .integer count.toNat

/-- The members of an input: raw values of any form, counts, and groups of raw values.
Any of the tables may be left out, and members with other names may stand among them. -/
structure HasInputTables (members : List (String × Json)) : Prop where
  values : HasTable "values" (fun _ => True) members
  penalties : HasTable "penalties" (fun value => ∃ count, value.IsCount count) members
  cooperative : HasTable "cooperative" (fun value => ∃ items, value = .array items) members

end Json

/-- An input has what the tables of its document say and nothing else. -/
structure ScoreInput.IsReadFrom (members : List (String × Json)) (input : ScoreInput) :
    Prop where
  values : ∀ id, Option.Rel RawValue.Reads ((Json.tableMembers "values" members).lookup id)
    (input.values.get? id)
  penalties : ∀ id, Option.Rel Json.IsCount
    ((Json.tableMembers "penalties" members).lookup id) (input.penalties.get? id)
  cooperative : ∀ id, Option.Rel RawValue.ReadsGroup
    ((Json.tableMembers "cooperative" members).lookup id) (input.cooperative.get? id)

theorem valuesOf_eq_toList_lookup {name : String} {members : List (String × Json)}
    (hdistinct : (members.map (·.1)).Nodup) :
    valuesOf name members = (members.lookup name).toList := by
  induction members with
  | nil => rfl
  | cons member members ih =>
    obtain ⟨hmember, hrest⟩ := List.nodup_cons.mp hdistinct
    rw [valuesOf_cons, KeyedTable.lookup_cons_eq_ite]
    by_cases heq : member.1 = name
    · rw [if_pos heq, if_pos heq.symm, valuesOf_eq_nil, Option.toList_some]
      intro other hother hname
      exact hmember (List.mem_map.mpr ⟨other, hother, hname.trans heq.symm⟩)
    · rw [if_neg heq, if_neg (Ne.symm heq), ih hrest]

section Tables

variable {α : Type} (decoder : Decoder α) (reads : Json → α → Prop) {dialect : Dialect}
  {form : Json → Prop} {name : String} {members : List (String × Json)}

/-- The slot of a table ends up with what the table says. -/
theorem exists_run_table (hdistinct : (Json.object members).Distinct)
    (hroom : ∀ member ∈ members, dialect.HasRoom member.2.depth)
    (htable : Json.HasTable name form members)
    (hform : ∀ value, value.Distinct → form value → ∀ inner : Dialect,
      inner.HasRoom value.depth →
        ∃ result, decoder inner (Source.ofJson value) = .ok result ∧ reads value result) :
    ∃ state : Option (KeyedTable α),
      (valuesOf name members).foldlM (fun state value =>
        fill (.table decoder) state some dialect (Source.ofJson value)) none = .ok state ∧
      ∀ id, Option.Rel reads ((Json.tableMembers name members).lookup id)
        ((state.getD .empty).get? id) := by
  rw [valuesOf_eq_toList_lookup hdistinct.1, Json.tableMembers]
  cases hlookup : members.lookup name with
  | none => exact ⟨none, rfl, fun id => .none⟩
  | some value =>
    obtain ⟨entries, rfl, hentries⟩ := htable value hlookup
    have hmember := (KeyedTable.lookup_eq_some_iff_mem hdistinct.1).mp hlookup
    have hvalue : (Json.object entries).Distinct :=
      Json.distinctMembers_iff.mp hdistinct.2 _ hmember
    obtain ⟨table, htable, hall⟩ := exists_table_eq_ok hvalue.1 (hroom _ hmember)
      fun entry hentry inner hinner => hform entry.2
        (Json.distinctMembers_iff.mp hvalue.2 entry hentry) (hentries entry hentry) inner hinner
    refine ⟨some table, ?_, hall⟩
    exact bind_eq_ok_iff.mpr ⟨some table, map_eq_ok_iff.mpr ⟨table, htable, rfl⟩, rfl⟩

end Tables

theorem ScoreInput.exists_decoder_eq_ok {dialect : Dialect} {members : List (String × Json)}
    (hdistinct : (Json.object members).Distinct) (htables : Json.HasInputTables members)
    (hroom : dialect.HasRoom (Json.object members).depth) :
    ∃ input, ScoreInput.decoder dialect (Source.ofJson (.object members)) = .ok input ∧
      IsReadFrom members input := by
  obtain ⟨inner, henter, hinner⟩ := hroom.enter
  have hmembers : ∀ member ∈ members, inner.HasRoom member.2.depth :=
    fun member hmember => hinner.mono (Json.depth_le_depthMembers hmember)
  obtain ⟨values, hvalues, hvaluesRead⟩ := exists_run_table RawValue.decoder RawValue.Reads
    hdistinct hmembers htables.values
    fun value hvalue _ _ hroom => RawValue.exists_decoder_eq_ok hvalue hroom
  obtain ⟨penalties, hpenalties, hpenaltiesRead⟩ := exists_run_table .word32 Json.IsCount
    hdistinct hmembers htables.penalties fun value _ hcount inner _ => by
      obtain ⟨count, rfl⟩ := hcount
      exact ⟨count, Decoder.word32_toNat count, rfl⟩
  obtain ⟨cooperative, hcooperative, hcooperativeRead⟩ := exists_run_table
    (.list RawValue.decoder) RawValue.ReadsGroup hdistinct hmembers htables.cooperative
    fun value hvalue hitems inner hroom => by
      obtain ⟨items, rfl⟩ := hitems
      exact RawValue.exists_group_eq_ok hvalue hroom
  have hruns : ∀ slot ∈ slots, ∃ state, slot.run inner (slot.get recordDecoder.start)
      (valuesOf slot.name members) = .ok state := by
    simp only [slots, List.forall_mem_cons]
    exact ⟨⟨values, hvalues⟩, ⟨penalties, hpenalties⟩, ⟨cooperative, hcooperative⟩,
      List.forall_mem_nil _⟩
  obtain ⟨draft, hdraft⟩ := exists_putMembers slots
    (fun member _ => hasSlots.put_ne_error member.2) hruns
  have hslots : ∀ slot ∈ slots, slot.run inner (slot.get recordDecoder.start)
      (valuesOf slot.name members) = .ok (slot.get draft) :=
    fun slot _ => run_valuesOf_of_putMembers slot hdraft
  simp only [slots, List.forall_mem_cons] at hslots
  obtain ⟨hfirst, hsecond, hthird, -⟩ := hslots
  obtain rfl : values = draft.values := Except.ok.inj (hvalues.symm.trans hfirst)
  obtain rfl : penalties = draft.penalties := Except.ok.inj (hpenalties.symm.trans hsecond)
  obtain rfl : cooperative = draft.cooperative :=
    Except.ok.inj (hcooperative.symm.trans hthird)
  exact ⟨_, objectForm_eq draft henter hdraft rfl, hvaluesRead, hpenaltiesRead, hcooperativeRead⟩

/-! ## Documents -/

/-- A decoder makes something of a tree that says what it should, in memory and where a text
spells the tree and does not nest deeper than a reader goes. -/
structure Document.Decoder.Yields {α : Type} (decoder : Decoder α) (tree : Json)
    (meets : α → Prop) : Prop where
  ofJson : ∃ value, decoder.ofJson tree = .ok value ∧ meets value
  ofJsonText : ∀ text, Json.read text = ⟨Source.ofJson tree, false⟩ → tree.depth ≤ 127 →
    ∃ value, decoder.ofJsonText text = .ok value ∧ meets value

theorem Document.Decoder.yields_of_hasRoom {α : Type} {decoder : Decoder α} {tree : Json}
    {meets : α → Prop}
    (hdecoder : ∀ dialect : Dialect, dialect.HasRoom tree.depth →
      ∃ value, decoder dialect (Source.ofJson tree) = .ok value ∧ meets value) :
    decoder.Yields tree meets where
  ofJson := by
    obtain ⟨value, hvalue, hmeets⟩ := hdecoder .jsonValue nofun
    exact ⟨value, ofJson_eq_ok_iff.mpr hvalue, hmeets⟩
  ofJsonText text hread hdepth := by
    obtain ⟨value, hvalue, hmeets⟩ := hdecoder .jsonText (Dialect.hasRoom_jsonText hdepth)
    exact ⟨value, ofJsonText_eq hread hvalue, hmeets⟩

end TournamentScoring
