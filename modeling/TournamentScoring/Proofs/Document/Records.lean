import TournamentScoring.Proofs.Document.Reformatting

/-!
# Slots of a record

Members with different names act on different slots of the draft of a record, so what
becomes of a slot is decided by the members with its name alone, wherever they stand.
This is what makes a record independent of the order of its members and of members
that it has no field for.
-/

namespace TournamentScoring

open Document

/-! ## Members with one name -/

theorem valuesOf_cons (key name : String) (value : Json) (members : List (String × Json)) :
    valuesOf key ((name, value) :: members) =
      if name = key then value :: valuesOf key members else valuesOf key members := by
  by_cases heq : name = key <;> simp [valuesOf, heq]

theorem valuesOf_append (key : String) (members others : List (String × Json)) :
    valuesOf key (members ++ others) = valuesOf key members ++ valuesOf key others := by
  rw [valuesOf, List.filter_append, List.map_append]
  rfl

theorem valuesOf_eq_nil {key : String} {members : List (String × Json)}
    (hkey : ∀ member ∈ members, member.1 ≠ key) : valuesOf key members = [] := by
  rw [valuesOf, List.map_eq_nil_iff, List.filter_eq_nil_iff]
  exact fun member hmem => mt beq_iff_eq.mp (hkey member hmem)

theorem mem_of_mem_valuesOf {key : String} {value : Json} {members : List (String × Json)}
    (hvalue : value ∈ valuesOf key members) : (key, value) ∈ members := by
  obtain ⟨⟨name, _⟩, hmem, rfl⟩ := List.mem_map.mp hvalue
  obtain ⟨hlisted, hname⟩ := List.mem_filter.mp hmem
  obtain rfl : name = key := beq_iff_eq.mp hname
  exact hlisted

theorem length_valuesOf_le_one {key : String} {members : List (String × Json)}
    (hdistinct : (members.map (·.1)).Nodup) : (valuesOf key members).length ≤ 1 := by
  induction members with
  | nil => exact Nat.zero_le 1
  | cons member members ih =>
    obtain ⟨hmember, hrest⟩ := List.nodup_cons.mp hdistinct
    rw [valuesOf_cons]
    split
    · rename_i heq
      have hnone : valuesOf key members = [] := valuesOf_eq_nil fun other hother hname =>
        hmember (List.mem_map.mpr ⟨other, hother, hname.trans heq.symm⟩)
      rw [hnone]
      exact Nat.le_refl 1
    · exact ih hrest

namespace Document

theorem ReformatsMembers.forall₂_valuesOf {role : Role} {members kept : List (String × Json)}
    (hkept : ReformatsMembers role members kept) (key : String) :
    List.Forall₂ (Reformats (role.member key)) (valuesOf key members)
      (valuesOf key kept) := by
  induction members generalizing kept with
  | nil =>
    cases hkept
    exact .nil
  | cons member members ih =>
    cases hkept with
    | @cons _ name value other _ _ hvalue hmembers =>
      rw [valuesOf_cons, valuesOf_cons]
      split
      · rename_i heq
        exact .cons (heq ▸ hvalue) (ih hmembers)
      · exact ih hmembers

/-- A name that is in no added member has one value in both layouts, or none. -/
theorem ReformatsMembers.valuesOf_cases {role : Role}
    {members kept added others : List (String × Json)}
    (hkept : ReformatsMembers role members kept) (hperm : others.Perm (kept ++ added))
    (hdistinct : (members.map (·.1)).Nodup) {key : String}
    (hadded : ∀ member ∈ added, member.1 ≠ key) :
    valuesOf key members = [] ∧ valuesOf key others = [] ∨
      ∃ value other, valuesOf key members = [value] ∧ valuesOf key others = [other] ∧
        Reformats (role.member key) value other := by
  have hvalues := hkept.forall₂_valuesOf key
  have hothers : (valuesOf key others).Perm (valuesOf key kept) := by
    have hfilter : (valuesOf key others).Perm (valuesOf key (kept ++ added)) :=
      (hperm.filter _).map _
    rwa [valuesOf_append, valuesOf_eq_nil hadded, List.append_nil] at hfilter
  have hlength : (valuesOf key members).length ≤ 1 := length_valuesOf_le_one hdistinct
  cases hmembers : valuesOf key members with
  | nil =>
    rw [hmembers] at hvalues
    rw [List.forall₂_nil_left_iff.mp hvalues] at hothers
    exact Or.inl ⟨rfl, hothers.eq_nil⟩
  | cons value rest =>
    rw [hmembers] at hvalues hlength
    obtain rfl : rest = [] := List.eq_nil_of_length_eq_zero (by
      rw [List.length_cons] at hlength
      omega)
    obtain ⟨other, _, hvalue, hnil, hkeptValues⟩ := List.forall₂_cons_left_iff.mp hvalues
    rw [hkeptValues, List.forall₂_nil_left_iff.mp hnil] at hothers
    exact Or.inr ⟨value, other, rfl, hothers.eq_singleton, hvalue⟩

mutual

/-- Nothing stops a reader that skips a value in memory. -/
theorem Source.skip_ofJson (value : Json) : skip (ofJson value) = none := by
  match value with
  | .null | .boolean _ | .integer _ | .float _ | .text _ => rfl
  | .array items => rw [ofJson, skip, skipItems_ofItems items, Option.none_or]
  | .object members => rw [ofJson, skip, skipMembers_ofMembers members, Option.none_or]
termination_by structural value

theorem Source.skipItems_ofItems (items : List Json) : skipItems (ofItems items) = none := by
  match items with
  | [] => rfl
  | item :: items =>
    rw [ofItems, skipItems, skip_ofJson item, skipItems_ofItems items, Option.none_or]
termination_by structural items

theorem Source.skipMembers_ofMembers (members : List (String × Json)) :
    skipMembers (ofMembers members) = none := by
  match members with
  | [] => rfl
  | (name, value) :: members =>
    rw [ofMembers, skipMembers, skip_ofJson value, skipMembers_ofMembers members,
      Option.none_or]
    nofun
termination_by structural members

end

namespace RecordDecoder

variable {δ α : Type} {record : RecordDecoder δ α} {dialect : Dialect}

/-! ## Slots -/

/-- The part of a draft that members with one name act on, and no others. -/
structure Slot (record : RecordDecoder δ α) where
  name : String
  State : Type
  get : δ → State
  /-- What a member does to the slot. -/
  step : Dialect → State → Source → Except ReadError State
  map_put : ∀ dialect draft source, (record.put dialect draft name source).map
    (Except.map get) = some (step dialect (get draft) source)
  get_put : ∀ dialect draft next key source,
    record.put dialect draft key source = some (.ok next) → key ≠ name →
      get next = get draft

namespace Slot

variable (slot : record.Slot)

/-- What members with the name of the slot do to it, one after the other. -/
def run (dialect : Dialect) (state : slot.State) (values : List Json) :
    Except ReadError slot.State :=
  values.foldlM (fun state value => slot.step dialect state (Source.ofJson value)) state

variable {slot}

theorem step_of_put {draft next : δ} {source : Source}
    (hput : record.put dialect draft slot.name source = some (.ok next)) :
    slot.step dialect (slot.get draft) source = .ok (slot.get next) := by
  have hmap := slot.map_put dialect draft source
  rw [hput] at hmap
  exact (Option.some.inj hmap).symm

theorem exists_put {draft : δ} {source : Source} {state : slot.State}
    (hstep : slot.step dialect (slot.get draft) source = .ok state) :
    ∃ next, record.put dialect draft slot.name source = some (.ok next) := by
  have hmap := slot.map_put dialect draft source
  rw [hstep] at hmap
  obtain ⟨result, hput, hresult⟩ := Option.map_eq_some_iff.mp hmap
  obtain ⟨next, rfl, -⟩ := map_eq_ok_iff.mp hresult
  exact ⟨next, hput⟩

/-- A member is done with once it has been put into the draft. -/
theorem run_of_put {draft next : δ} {name : String} {value : Json}
    (hput : record.put dialect draft name (Source.ofJson value) = some (.ok next))
    (members : List (String × Json)) :
    slot.run dialect (slot.get draft) (valuesOf slot.name ((name, value) :: members)) =
      slot.run dialect (slot.get next) (valuesOf slot.name members) := by
  rw [valuesOf_cons]
  by_cases heq : name = slot.name
  · subst heq
    rw [if_pos rfl, run, List.foldlM_cons, step_of_put hput]
    rfl
  · rw [if_neg heq, slot.get_put _ _ _ _ _ hput heq]

theorem run_of_put_eq_none {draft : δ} {name : String} {value : Json}
    (hput : record.put dialect draft name (Source.ofJson value) = none)
    (state : slot.State) (members : List (String × Json)) :
    slot.run dialect state (valuesOf slot.name ((name, value) :: members)) =
      slot.run dialect state (valuesOf slot.name members) := by
  have hne : name ≠ slot.name := by
    rintro rfl
    have hmap := slot.map_put dialect draft (Source.ofJson value)
    rw [hput] at hmap
    cases hmap
  rw [valuesOf_cons, if_neg hne]

end Slot

/-! ## Runs over all members -/

theorem putMembers_cons_eq_ok_iff {draft last : δ} {name : String} {value : Json}
    {members : List (String × Json)} :
    record.putMembers dialect draft (Source.ofMembers ((name, value) :: members)) =
        .ok last ↔
      (∃ next, record.put dialect draft name (Source.ofJson value) = some (.ok next) ∧
        record.putMembers dialect next (Source.ofMembers members) = .ok last) ∨
      record.put dialect draft name (Source.ofJson value) = none ∧
        record.putMembers dialect draft (Source.ofMembers members) = .ok last := by
  have hkey : Label.key (.name name) = .ok name := rfl
  simp only [Source.ofMembers, putMembers, hkey, bind, Except.bind]
  cases record.put dialect draft name (Source.ofJson value) with
  | none => simp [Source.skip_ofJson]
  | some result => cases result <;> simp

/-- A slot ends up with what the members with its name made of it. -/
theorem run_valuesOf_of_putMembers (slot : record.Slot) {draft last : δ}
    {members : List (String × Json)}
    (hlast : record.putMembers dialect draft (Source.ofMembers members) = .ok last) :
    slot.run dialect (slot.get draft) (valuesOf slot.name members) =
      .ok (slot.get last) := by
  induction members generalizing draft with
  | nil =>
    cases hlast
    rfl
  | cons member members ih =>
    rcases putMembers_cons_eq_ok_iff.mp hlast with ⟨next, hput, hlast⟩ | ⟨hput, hlast⟩
    · rw [Slot.run_of_put hput, ih hlast]
    · rw [Slot.run_of_put_eq_none hput, ih hlast]

/-- Members can be put into a draft if those of each slot can, and if no other member
fails by itself. -/
theorem exists_putMembers (slots : List record.Slot) {members : List (String × Json)}
    (hothers : ∀ member ∈ members, (∀ slot ∈ slots, member.1 ≠ slot.name) →
      ∀ draft cause, record.put dialect draft member.1 (Source.ofJson member.2) ≠
        some (.error cause))
    {draft : δ}
    (hruns : ∀ slot ∈ slots, ∃ state,
      slot.run dialect (slot.get draft) (valuesOf slot.name members) = .ok state) :
    ∃ last, record.putMembers dialect draft (Source.ofMembers members) = .ok last := by
  induction members generalizing draft with
  | nil => exact ⟨draft, rfl⟩
  | cons member members ih =>
    obtain ⟨name, value⟩ := member
    obtain ⟨hmember, hrest⟩ := List.forall_mem_cons.mp hothers
    -- The run of its slot begins with this member, so its step cannot fail.
    have hput : ∀ cause, record.put dialect draft name (Source.ofJson value) ≠
        some (.error cause) := by
      by_cases hslot : ∃ slot ∈ slots, name = slot.name
      · obtain ⟨slot, hslot, rfl⟩ := hslot
        obtain ⟨state, hrun⟩ := hruns slot hslot
        rw [valuesOf_cons, if_pos rfl] at hrun
        obtain ⟨first, hstep, -⟩ := bind_eq_ok_iff.mp hrun
        obtain ⟨next, hnext⟩ := Slot.exists_put hstep
        rw [hnext]
        nofun
      · exact hmember (fun slot hmem heq => hslot ⟨slot, hmem, heq⟩) draft
    cases hcase : record.put dialect draft name (Source.ofJson value) with
    | none =>
      obtain ⟨last, hlast⟩ := ih hrest fun slot hslot => by
        obtain ⟨state, hrun⟩ := hruns slot hslot
        exact ⟨state, (Slot.run_of_put_eq_none hcase _ members).symm.trans hrun⟩
      exact ⟨last, putMembers_cons_eq_ok_iff.mpr (Or.inr ⟨hcase, hlast⟩)⟩
    | some result =>
      cases result with
      | error cause => exact absurd hcase (hput cause)
      | ok next =>
        obtain ⟨last, hlast⟩ := ih hrest fun slot hslot => by
          obtain ⟨state, hrun⟩ := hruns slot hslot
          exact ⟨state, (Slot.run_of_put hcase members).symm.trans hrun⟩
        exact ⟨last, putMembers_cons_eq_ok_iff.mpr (Or.inl ⟨next, hcase, hlast⟩)⟩

/-! ## Records in other layouts -/

/-- A slot takes the same from a value in every layout. -/
def Slot.Respects (slot : record.Slot) (role : Role) : Prop :=
  ∀ ⦃dialect : Dialect⦄ ⦃before after : Json⦄ ⦃state next : slot.State⦄,
    Reformats (role.member slot.name) before after → before.Distinct →
      dialect.HasRoom after.depth →
        slot.step dialect state (Source.ofJson before) = .ok next →
          slot.step dialect state (Source.ofJson after) = .ok next

/-- Another layout of the members leaves the slots as they were. -/
theorem exists_putMembers_of_reformats {role : Role} {slots : List record.Slot}
    (hrespects : ∀ slot ∈ slots, slot.Respects role)
    {members kept added others : List (String × Json)}
    (hkept : ReformatsMembers role members kept) (hperm : others.Perm (kept ++ added))
    (hadded : ∀ slot ∈ slots, ∀ member ∈ added, member.1 ≠ slot.name)
    (hdistinct : (Json.object members).Distinct)
    (hroom : ∀ member ∈ others, dialect.HasRoom member.2.depth)
    (hothers : ∀ member ∈ others, (∀ slot ∈ slots, member.1 ≠ slot.name) →
      ∀ draft cause, record.put dialect draft member.1 (Source.ofJson member.2) ≠
        some (.error cause))
    {draft last : δ}
    (hlast : record.putMembers dialect draft (Source.ofMembers members) = .ok last) :
    ∃ next, record.putMembers dialect draft (Source.ofMembers others) = .ok next ∧
      ∀ slot ∈ slots, slot.get next = slot.get last := by
  obtain ⟨hnodup, hvalues⟩ := hdistinct
  -- Each slot sees one value at most, so there is no order to be kept.
  have hruns : ∀ slot ∈ slots,
      slot.run dialect (slot.get draft) (valuesOf slot.name others) =
        .ok (slot.get last) := by
    intro slot hslot
    have hrun := run_valuesOf_of_putMembers slot hlast
    rcases hkept.valuesOf_cases hperm hnodup (hadded slot hslot) with
      ⟨hmembers, hnone⟩ | ⟨value, other, hmembers, hother, hreformats⟩
    · rw [hmembers] at hrun
      rw [hnone]
      exact hrun
    · rw [hmembers] at hrun
      obtain ⟨state, hstep, hend⟩ := bind_eq_ok_iff.mp hrun
      have hvalue := mem_of_mem_valuesOf (hmembers ▸ List.mem_singleton_self value)
      have hotherMem := mem_of_mem_valuesOf (hother ▸ List.mem_singleton_self other)
      rw [hother]
      refine bind_eq_ok_iff.mpr ⟨state, ?_, hend⟩
      exact hrespects slot hslot hreformats (Json.distinctMembers_iff.mp hvalues _ hvalue)
        (hroom _ hotherMem) hstep
  obtain ⟨next, hnext⟩ := exists_putMembers slots hothers
    fun slot hslot => ⟨_, hruns slot hslot⟩
  refine ⟨next, hnext, fun slot hslot => ?_⟩
  have hrun := run_valuesOf_of_putMembers slot hnext
  rw [hruns slot hslot] at hrun
  exact (Except.ok.inj hrun).symm

/-! ## The array form -/

/-- The array form reads its items as the members with the names of the fields. -/
theorem putItems_eq_ok_iff {draft last : δ} {fields : List String} {items : List Json} :
    record.putItems dialect none draft fields (Source.ofItems items) = .ok last ↔
      record.putMembers dialect draft (Source.ofMembers (fields.zip items)) = .ok last ∧
        (items.length ≤ fields.length ∨ dialect.allowsSurplus = true) := by
  induction items generalizing draft fields with
  | nil =>
    rw [List.zip_nil_right, Source.ofItems, putItems]
    simp [Source.ofMembers, putMembers, atEnd]
  | cons item items ih =>
    cases fields with
    | nil =>
      rw [List.zip_nil_left, Source.ofItems, putItems]
      by_cases hsurplus : dialect.allowsSurplus = true <;>
        simp [hsurplus, Source.ofMembers, putMembers]
    | cons field fields =>
      rw [List.zip_cons_cons, putMembers_cons_eq_ok_iff, Source.ofItems, putItems]
      rw [List.length_cons, List.length_cons, Nat.add_le_add_iff_right]
      cases record.put dialect draft field (Source.ofJson item) with
      | none => simp [ih]
      | some result =>
        cases result with
        | error cause => simp
        | ok next => simp [ih]

theorem reformatsMembers_zip {role : Role} {place : Nat} {items others : List Json}
    (hitems : ReformatsItems role place items others) {fields : List String}
    (hfields : ∀ index name, fields[index]? = some name →
      role.item (place + index) = role.member name) :
    ReformatsMembers role (fields.zip items) (fields.zip others) := by
  induction items generalizing place others fields with
  | nil =>
    cases hitems
    rw [List.zip_nil_right]
    exact .nil role
  | cons item items ih =>
    cases hitems with
    | cons hitem hitems =>
      cases fields with
      | nil => exact .nil role
      | cons field fields =>
        have hfirst : role.item place = role.member field := hfields 0 field rfl
        refine .cons (hfirst ▸ hitem) (ih hitems fun index name hname => ?_)
        rw [Nat.add_right_comm]
        exact hfields (index + 1) name hname

theorem map_fst_zip_sublist (fields : List String) (items : List Json) :
    ((fields.zip items).map (·.1)).Sublist fields := by
  induction fields generalizing items with
  | nil => exact .slnil
  | cons field fields ih =>
    cases items with
    | nil => exact List.nil_sublist _
    | cons item items => exact (ih items).cons_cons field

theorem distinct_zip {fields : List String} {items : List Json} (hfields : fields.Nodup)
    (hdistinct : (Json.array items).Distinct) : (Json.object (fields.zip items)).Distinct :=
  ⟨(map_fst_zip_sublist fields items).nodup hfields,
    Json.distinctMembers_iff.mpr fun _ hmem =>
      Json.distinctItems_iff.mp hdistinct _ (List.of_mem_zip hmem).2⟩

/-! ## Records that are nothing but their fields -/

/-- The draft of a record consists of one slot for each of its fields, and a role has
the same fields. -/
structure HasSlots (record : RecordDecoder δ α) (role : Role) (slots : List record.Slot) :
    Prop where
  names_eq : slots.map Slot.name = record.fields
  nodup : record.fields.Nodup
  respects : ∀ slot ∈ slots, slot.Respects role
  put_unknown : ∀ dialect draft name source, name ∉ record.fields →
    record.put dialect draft name source = none
  ext : ∀ draft next, (∀ slot ∈ slots, slot.get next = slot.get draft) → next = draft
  ignores : ∀ members name, role.Ignores members name → name ∉ record.fields
  item_eq : ∀ place name, record.fields[place]? = some name →
    role.item place = role.member name

namespace HasSlots

variable {role : Role} {slots : List record.Slot}

/-- A member without a slot is skipped. -/
theorem put_ne_error (hslots : record.HasSlots role slots) {name : String} (value : Json)
    (hname : ∀ slot ∈ slots, name ≠ slot.name) (draft : δ) (cause : ReadError) :
    record.put dialect draft name (Source.ofJson value) ≠ some (.error cause) := by
  have hunknown : name ∉ record.fields := by
    rw [← hslots.names_eq]
    intro hmem
    obtain ⟨slot, hslot, heq⟩ := List.mem_map.mp hmem
    exact hname slot hslot heq.symm
  rw [hslots.put_unknown dialect draft name _ hunknown]
  nofun

/-- Another layout of the members leaves the draft as it was. -/
theorem putMembers_reformatted (hslots : record.HasSlots role slots)
    {members kept added others : List (String × Json)}
    (hkept : ReformatsMembers role members kept) (hperm : others.Perm (kept ++ added))
    (hadded : ∀ member ∈ added, member.1 ∉ record.fields)
    (hdistinct : (Json.object members).Distinct)
    (hroom : ∀ member ∈ others, dialect.HasRoom member.2.depth) {draft last : δ}
    (hlast : record.putMembers dialect draft (Source.ofMembers members) = .ok last) :
    record.putMembers dialect draft (Source.ofMembers others) = .ok last := by
  have hfree : ∀ slot ∈ slots, ∀ member ∈ added, member.1 ≠ slot.name := by
    intro slot hslot member hmem heq
    have hname : slot.name ∈ record.fields := hslots.names_eq ▸ List.mem_map_of_mem hslot
    exact hadded member hmem (heq ▸ hname)
  obtain ⟨next, hnext, hgets⟩ := exists_putMembers_of_reformats hslots.respects hkept
    hperm hfree hdistinct hroom (fun member _ => hslots.put_ne_error member.2) hlast
  rw [hnext, hslots.ext last next hgets]

/-- The array form is the object with its items under the names of the fields. -/
theorem putItems_reformatted (hslots : record.HasSlots role slots)
    {items others : List Json} (hitems : ReformatsItems role 0 items others)
    (hdistinct : (Json.array items).Distinct)
    (hroom : ∀ item ∈ others, dialect.HasRoom item.depth) {draft last : δ}
    (hlast : record.putItems dialect none draft record.fields (Source.ofItems items) =
      .ok last) :
    record.putItems dialect none draft record.fields (Source.ofItems others) =
      .ok last := by
  rw [putItems_eq_ok_iff] at hlast ⊢
  obtain ⟨hmembers, hlength⟩ := hlast
  have hkept : ReformatsMembers role (record.fields.zip items)
      (record.fields.zip others) :=
    reformatsMembers_zip hitems fun index name hindex => by
      rw [Nat.zero_add]
      exact hslots.item_eq index name hindex
  have hnone : ∀ member ∈ ([] : List (String × Json)), member.1 ∉ record.fields := nofun
  refine ⟨?_, hitems.length_eq ▸ hlength⟩
  exact hslots.putMembers_reformatted hkept (.of_eq (List.append_nil _).symm) hnone
    (distinct_zip hslots.nodup hdistinct)
    (fun member hmem => hroom member.2 (List.of_mem_zip hmem).2) hmembers

theorem respects_decoder (hslots : record.HasSlots role slots) :
    record.decoder.Respects role := by
  intro dialect before after value hreformats hdistinct hroom hvalue
  cases before with
  | object members =>
    obtain ⟨kept, added, others, rfl, hkept, hadded, hperm⟩ := hreformats.exists_object
    obtain ⟨inner, henter, hvalue⟩ := bind_eq_ok_iff.mp hvalue
    obtain ⟨draft, hdraft, hvalue⟩ := bind_eq_ok_iff.mp hvalue
    refine bind_eq_ok_iff.mpr ⟨inner, henter, bind_eq_ok_iff.mpr ⟨draft, ?_, hvalue⟩⟩
    exact hslots.putMembers_reformatted hkept hperm
      (fun member hmem => hslots.ignores members member.1 (hadded member hmem)) hdistinct
      (fun member hmem =>
        (hroom.of_enter henter).mono (Json.depth_le_depthMembers hmem)) hdraft
  | array items =>
    obtain ⟨others, rfl, hitems⟩ := hreformats.exists_array
    obtain ⟨inner, henter, hvalue⟩ := bind_eq_ok_iff.mp hvalue
    obtain ⟨draft, hdraft, hvalue⟩ := bind_eq_ok_iff.mp hvalue
    refine bind_eq_ok_iff.mpr ⟨inner, henter, bind_eq_ok_iff.mpr ⟨draft, ?_, hvalue⟩⟩
    exact hslots.putItems_reformatted hitems hdistinct
      (fun item hmem => (hroom.of_enter henter).mono (Json.depth_le_depthItems hmem))
      hdraft
  | _ => cases hvalue

end HasSlots

/-! ## Fields -/

section

variable {β : Type} {decoder : Decoder β}

theorem exists_of_fill {slot : Option β} {store : β → δ} {source : Source} {next : δ}
    (hnext : some (fill decoder slot store dialect source) = some (.ok next)) :
    ∃ value, store value = next := by
  have hfill := Option.some.inj hnext
  cases slot with
  | some _ => cases hfill
  | none =>
    obtain ⟨value, -, hvalue⟩ := map_eq_ok_iff.mp hfill
    exact ⟨value, hvalue⟩

theorem map_fill {γ : Type} {slot : Option β} {store : β → δ} {get : δ → γ} {source : Source} :
    (fill decoder slot store dialect source).map get =
      fill decoder slot (fun value => get (store value)) dialect source := by
  cases slot with
  | some _ => rfl
  | none =>
    change ((decoder dialect source).map store).map get = (decoder dialect source).map _
    cases decoder dialect source <;> rfl

/-- The slot of a field that may be filled once. -/
def fieldSlot (record : RecordDecoder δ α) (name : String) (decoder : Decoder β)
    (get : δ → Option β) (set : δ → β → δ)
    (put_eq : ∀ dialect draft source, record.put dialect draft name source =
      some (fill decoder (get draft) (set draft) dialect source))
    (get_set : ∀ draft value, get (set draft value) = some value)
    (get_put : ∀ dialect draft next key source,
      record.put dialect draft key source = some (.ok next) → key ≠ name →
        get next = get draft) :
    record.Slot where
  name := name
  State := Option β
  get := get
  step dialect slot source := fill decoder slot some dialect source
  map_put dialect draft source := by
    rw [put_eq, Option.map_some, map_fill]
    simp only [get_set]
  get_put := get_put

theorem respects_fieldSlot {name : String} {get : δ → Option β} {set : δ → β → δ}
    {put_eq : ∀ dialect draft source, record.put dialect draft name source =
      some (fill decoder (get draft) (set draft) dialect source)}
    {get_set : ∀ draft value, get (set draft value) = some value}
    {get_put : ∀ dialect draft next key source,
      record.put dialect draft key source = some (.ok next) → key ≠ name →
        get next = get draft}
    {role : Role} (hdecoder : decoder.Respects (role.member name)) :
    (fieldSlot record name decoder get set put_eq get_set get_put).Respects role := by
  intro dialect before after slot next hreformats hdistinct hroom hnext
  cases slot with
  | some _ => cases hnext
  | none => exact hdecoder.map some hreformats hdistinct hroom hnext

end

end RecordDecoder

end Document

end TournamentScoring
