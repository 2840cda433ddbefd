import TournamentScoring.Proofs.Document.CanonicalForm
import TournamentScoring.Proofs.Document.Reformatting
import TournamentScoring.Proofs.Json.Pretty

/-!
# Ordered values are kept as they are

Keeping a value puts the keys of its objects in order.  A value whose keys are in
order already is kept as it is, so what is kept of its text over several lines is
what was written.
-/

namespace TournamentScoring

open Document

namespace Json

mutual

/-- The keys of every object are in increasing order. -/
def Ordered : Json → Prop
  | array items => OrderedItems items
  | object members => KeyOrdered members ∧ OrderedMembers members
  | _ => True

def OrderedItems : List Json → Prop
  | [] => True
  | item :: items => Ordered item ∧ OrderedItems items

def OrderedMembers : List (String × Json) → Prop
  | [] => True
  | (_, value) :: members => Ordered value ∧ OrderedMembers members

end

theorem orderedItems_iff {items : List Json} :
    OrderedItems items ↔ ∀ item ∈ items, Ordered item := by
  induction items with
  | nil => exact iff_of_true trivial (by rintro _ ⟨⟩)
  | cons item items ih => rw [OrderedItems, ih, List.forall_mem_cons]

theorem orderedMembers_iff {members : List (String × Json)} :
    OrderedMembers members ↔ ∀ member ∈ members, Ordered member.2 := by
  induction members with
  | nil => exact iff_of_true trivial (by rintro _ ⟨⟩)
  | cons member members ih => rw [OrderedMembers, ih, List.forall_mem_cons]

theorem depthItems_le {items : List Json} {depth : Nat}
    (hitems : ∀ item ∈ items, item.depth ≤ depth) : depthItems items ≤ depth := by
  induction items with
  | nil => exact Nat.zero_le depth
  | cons item items ih =>
    obtain ⟨hitem, hitems⟩ := List.forall_mem_cons.mp hitems
    exact Nat.max_le.mpr ⟨hitem, ih hitems⟩

theorem depthMembers_le {members : List (String × Json)} {depth : Nat}
    (hmembers : ∀ member ∈ members, member.2.depth ≤ depth) :
    depthMembers members ≤ depth := by
  induction members with
  | nil => exact Nat.zero_le depth
  | cons member members ih =>
    obtain ⟨hmember, hmembers⟩ := List.forall_mem_cons.mp hmembers
    exact Nat.max_le.mpr ⟨hmember, ih hmembers⟩

end Json

namespace Document

mutual

/-- An ordered value is kept as it is where there is room for it. -/
theorem Source.keep_ofJson {dialect : Dialect} {value : Json} (hordered : value.Ordered)
    (hroom : dialect.HasRoom value.depth) :
    keep dialect.room (ofJson value) = .ok value := by
  match value with
  | .null | .boolean _ | .integer _ | .float _ | .text _ => rfl
  | .array items =>
    obtain ⟨inner, henter, hinner⟩ := hroom.enter
    obtain ⟨room, hroom, rfl⟩ := map_eq_ok_iff.mp henter
    have hitems := keepItems_ofItems hordered hinner
    rw [ofJson, keep]
    exact bind_eq_ok_iff.mpr ⟨room, hroom, bind_eq_ok_iff.mpr ⟨items, hitems, rfl⟩⟩
  | .object members =>
    obtain ⟨inner, henter, hinner⟩ := hroom.enter
    obtain ⟨room, hroom, rfl⟩ := map_eq_ok_iff.mp henter
    have hentries := decodes_keep hordered.2 hinner
    have hmembers : keepMembers room [] (ofMembers members) = .ok members :=
      keepMembers_eq_ok_iff.mpr
        ⟨members, hentries, KeyedTable.entries_ofList hordered.1⟩
    rw [ofJson, keep]
    exact bind_eq_ok_iff.mpr ⟨room, hroom, bind_eq_ok_iff.mpr ⟨members, hmembers, rfl⟩⟩
termination_by structural value

theorem Source.keepItems_ofItems {dialect : Dialect} {items : List Json}
    (hordered : Json.OrderedItems items)
    (hroom : dialect.HasRoom (Json.depthItems items)) :
    keepItems dialect.room (ofItems items) = .ok items := by
  match items with
  | [] => rfl
  | item :: items =>
    have hitem := keep_ofJson hordered.1 (hroom.mono (Nat.le_max_left _ _))
    have hitems := keepItems_ofItems hordered.2 (hroom.mono (Nat.le_max_right _ _))
    rw [ofItems, keepItems]
    exact bind_eq_ok_iff.mpr ⟨item, hitem, bind_eq_ok_iff.mpr ⟨items, hitems, rfl⟩⟩
termination_by structural items

theorem Source.decodes_keep {dialect : Dialect} {members : List (String × Json)}
    (hordered : Json.OrderedMembers members)
    (hroom : dialect.HasRoom (Json.depthMembers members)) :
    List.Forall₂ (Decodes fun value => keep dialect.room (ofJson value)) members
      members := by
  match members with
  | [] => exact .nil
  | (name, value) :: members =>
    have hvalue := keep_ofJson hordered.1 (hroom.mono (Nat.le_max_left _ _))
    exact .cons ⟨rfl, hvalue⟩
      (decodes_keep hordered.2 (hroom.mono (Nat.le_max_right _ _)))
termination_by structural members

end

end Document

/-! ## Values that can be written -/

namespace Json

/-- The text of the value over several lines is kept as it was written, where so many
levels fit. -/
structure Writable (levels : Nat) (value : Json) : Prop where
  readable : value.Readable
  ordered : value.asWritten.Ordered
  depth_le : value.asWritten.depth ≤ levels

theorem Writable.of_eq {levels : Nat} {value written : Json}
    (hreadable : value.Readable) (hwritten : value.asWritten = written)
    (hordered : written.Ordered) (hdepth : written.depth ≤ levels) :
    Writable levels value := by
  subst hwritten
  exact ⟨hreadable, hordered, hdepth⟩

theorem Writable.mono {fewer levels : Nat} {value : Json} (hvalue : value.Writable fewer)
    (hless : fewer ≤ levels) : value.Writable levels :=
  ⟨hvalue.readable, hvalue.ordered, Nat.le_trans hvalue.depth_le hless⟩

section

variable (levels : Nat)

theorem writable_text (content : String) : Writable levels (.text content) :=
  ⟨trivial, trivial, Nat.zero_le levels⟩

theorem writable_word (value : UInt32) : Writable levels (.word value) :=
  ⟨readable_word value, trivial, Nat.zero_le levels⟩

theorem writable_float (value : Float) : Writable levels (.float value) := by
  by_cases hfinite : value.isFinite = true
  · exact .of_eq trivial (if_pos hfinite) trivial (Nat.zero_le levels)
  · exact .of_eq trivial (if_neg hfinite) trivial (Nat.zero_le levels)

end

section

variable {levels : Nat}

theorem writable_array {items : List Json} (hitems : ∀ item ∈ items, Writable levels item) :
    Writable (levels + 1) (.array items) := by
  refine .of_eq ?_ (congrArg array (itemsAsWritten_eq_map items)) ?_ ?_
  · exact readableItems_iff.mpr fun item hmem => (hitems item hmem).readable
  · refine orderedItems_iff.mpr (List.forall_mem_map.mpr fun item hmem => ?_)
    exact (hitems item hmem).ordered
  · refine Nat.succ_le_succ (depthItems_le (List.forall_mem_map.mpr fun item hmem => ?_))
    exact (hitems item hmem).depth_le

theorem writable_object {members : List (String × Json)} (keys : List String)
    (hkeys : members.map (·.1) = keys) (hordered : keys.Pairwise (· < ·))
    (hmembers : ∀ member ∈ members, Writable levels member.2) :
    Writable (levels + 1) (.object members) := by
  subst hkeys
  refine .of_eq ?_ (congrArg object (membersAsWritten_eq_map members)) ⟨?_, ?_⟩ ?_
  · exact readableMembers_iff.mpr fun member hmem => (hmembers member hmem).readable
  · exact List.pairwise_map.mpr (List.pairwise_map.mp hordered)
  · refine orderedMembers_iff.mpr (List.forall_mem_map.mpr fun member hmem => ?_)
    exact (hmembers member hmem).ordered
  · refine Nat.succ_le_succ (depthMembers_le
      (List.forall_mem_map.mpr fun member hmem => ?_))
    exact (hmembers member hmem).depth_le

end

end Json

/-- The text over several lines is decoded to what was written. -/
theorem Document.Decoder.ofJsonText_pretty {value : Json} (hvalue : value.Writable 127) :
    Decoder.whole.ofJsonText value.pretty = .ok value.asWritten := by
  have hroom := Dialect.hasRoom_jsonText hvalue.depth_le
  exact Decoder.ofJsonText_eq (Json.read_pretty hvalue.readable)
    (Source.keep_ofJson hvalue.ordered hroom)

end TournamentScoring
