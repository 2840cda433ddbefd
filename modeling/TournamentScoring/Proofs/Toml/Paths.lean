import TournamentScoring.Proofs.Toml.Merge

/-!
# What stands at a path of merged tables

A path of keys leads through tables to a value.  Under an overlay it leads to the
overlay's value, merged into what stood there.  Where the overlay has no value, all is as
it was, unless the overlay has put a value other than a table above the path: then nothing
is left there.
-/

namespace TournamentScoring.Toml

/-! ## Paths -/

/-- What stands at a path of keys. -/
def find? (document : Toml) : List String → Option Toml
  | [] => some document
  | key :: keys =>
    match document with
    | table entries => (entries.lookup key).bind fun value => value.find? keys
    | _ => none

/-- Any value but a table is a leaf. -/
def HasLeaf (document : Toml) (path : List String) (leaf : Toml) : Prop :=
  document.find? path = some leaf ∧ leaf.isTable = false

def HasTable (document : Toml) (path : List String) : Prop :=
  ∃ entries, document.find? path = some (table entries)

/-- Some leaf stands at a proper beginning of the path. -/
def HasLeafAbove (document : Toml) (path : List String) : Prop :=
  ∃ above leaf, above <+: path ∧ above ≠ path ∧ document.HasLeaf above leaf

section

variable {document value : Toml} {entries : List (String × Toml)} {key : String}
  {keys path : List String}

theorem find?_nil (document : Toml) : document.find? [] = some document := by
  cases document <;> rfl

theorem find?_table (key : String) : (table entries).find? [key] = entries.lookup key := by
  rw [find?]
  cases entries.lookup key with
  | none => rfl
  | some value => exact find?_nil value

/-- A path is followed key by key. -/
theorem find?_cons (document : Toml) (key : String) (keys : List String) :
    document.find? (key :: keys) =
      (document.find? [key]).bind fun value => value.find? keys := by
  cases document with
  | table entries => rw [find?_table, find?]
  | _ => rfl

theorem find?_of_not_isTable (hleaf : document.isTable = false) (keys : List String) :
    document.find? (key :: keys) = none := by
  cases document with
  | table entries => cases hleaf
  | _ => rfl

/-- Only tables have anything below them. -/
theorem isTable_of_find? (hvalue : document.find? (key :: keys) = some value) :
    document.isTable = true := by
  cases hisTable : document.isTable with
  | true => rfl
  | false => cases (find?_of_not_isTable hisTable keys).symm.trans hvalue

theorem exists_table_of_isTable (htable : document.isTable = true) :
    ∃ entries, document = table entries := by
  cases document with
  | table entries => exact ⟨entries, rfl⟩
  | _ => cases htable

theorem Ordered.find? (hordered : Ordered document)
    (hvalue : document.find? [key] = some value) : Ordered value := by
  cases document with
  | table entries =>
    rw [find?_table] at hvalue
    exact hordered.lookup hvalue
  | _ => cases hvalue

theorem hasTable_nil : document.HasTable [] ↔ document.isTable = true := by
  rw [HasTable, find?_nil]
  constructor
  · rintro ⟨entries, hentries⟩
    cases hentries
    rfl
  · intro htable
    obtain ⟨entries, rfl⟩ := exists_table_of_isTable htable
    exact ⟨entries, rfl⟩

theorem hasTable_cons (hvalue : document.find? [key] = some value) :
    document.HasTable (key :: keys) ↔ value.HasTable keys := by
  rw [HasTable, find?_cons, hvalue]
  rfl

theorem not_hasLeafAbove_nil : ¬document.HasLeafAbove [] := by
  rintro ⟨above, leaf, hprefix, hne, -⟩
  exact hne (List.prefix_nil.mp hprefix)

/-- Above a path stands a leaf if the document is one, or if one stands above the rest of
the path below its first key. -/
theorem hasLeafAbove_cons :
    document.HasLeafAbove (key :: keys) ↔
      document.isTable = false ∨
        ∃ value, document.find? [key] = some value ∧ value.HasLeafAbove keys := by
  constructor
  · rintro ⟨above, leaf, hprefix, hne, hfound, hleaf⟩
    cases above with
    | nil =>
      rw [find?_nil] at hfound
      cases hfound
      exact .inl hleaf
    | cons first rest =>
      obtain ⟨rfl, hrest⟩ := List.cons_prefix_cons.mp hprefix
      rw [find?_cons] at hfound
      obtain ⟨value, hvalue, hvalueFound⟩ := Option.bind_eq_some_iff.mp hfound
      refine .inr ⟨value, hvalue, rest, leaf, hrest, ?_, hvalueFound, hleaf⟩
      rintro rfl
      exact hne rfl
  · rintro (hleaf | ⟨value, hvalue, above, leaf, hprefix, hne, hfound, hleaf⟩)
    · exact ⟨[], document, List.nil_prefix, nofun, find?_nil document, hleaf⟩
    · refine ⟨key :: above, leaf, List.cons_prefix_cons.mpr ⟨rfl, hprefix⟩, ?_, ?_, hleaf⟩
      · intro heq
        exact hne (List.cons.inj heq).2
      · rw [find?_cons, hvalue]
        exact hfound

end

/-! ## Paths into merged values -/

section

variable {base overlay : Toml} {keys : List String}

/-- Anything but a table is no base to merge into. -/
theorem merge_into_not_isTable {path : String} (hbase : base.isTable = false) :
    (merge path base overlay).value = overlay := by
  cases overlay with
  | table entries =>
    cases base with
    | table _ => cases hbase
    | _ => rw [merge]; rintro _ ⟨⟩
  | _ => exact merge_of_not_isTable rfl

/-- The first step of a path into merged values. -/
theorem find?_merge_cons (hoverlay : Ordered overlay) (path key : String)
    (keys : List String) :
    (merge path base overlay).value.find? (key :: keys) =
      match overlay.find? [key] with
      | none => if overlay.isTable = true then base.find? (key :: keys) else none
      | some later =>
        (mergeAt (keyPath path key) (base.find? [key]) later).find? keys := by
  cases hisOverlay : overlay.isTable with
  | false =>
    rw [merge_of_not_isTable hisOverlay, find?_of_not_isTable hisOverlay,
      find?_of_not_isTable hisOverlay]
    rfl
  | true =>
    obtain ⟨others, rfl⟩ := exists_table_of_isTable hisOverlay
    rw [if_pos rfl, find?_table]
    cases hisBase : base.isTable with
    | false =>
      rw [merge_into_not_isTable hisBase, find?_of_not_isTable hisBase,
        find?_of_not_isTable hisBase, find?_cons, find?_table]
      cases others.lookup key <;> rfl
    | true =>
      obtain ⟨entries, rfl⟩ := exists_table_of_isTable hisBase
      rw [merge, find?_cons, find?_table,
        lookup_mergeEntries path (KeyedTable.nodup_map_fst hoverlay.1), find?_cons,
        find?_table]
      cases others.lookup key <;> rfl

/-- Where the overlay has a value, it is merged into what stood there. -/
theorem find?_merge_of_find? (hbase : Ordered base) (hoverlay : Ordered overlay)
    {value : Toml} (hvalue : overlay.find? keys = some value) (path : String) :
    (merge path base overlay).value.find? keys =
      some (mergeAt (keys.foldl keyPath path) (base.find? keys) value) := by
  induction keys generalizing path base overlay with
  | nil =>
    rw [find?_nil] at hvalue
    cases hvalue
    rw [find?_nil, find?_nil]
    rfl
  | cons key keys ih =>
    rw [find?_cons] at hvalue
    obtain ⟨later, hlater, hfound⟩ := Option.bind_eq_some_iff.mp hvalue
    rw [find?_merge_cons hoverlay, hlater, find?_cons base, List.foldl_cons]
    cases hearlier : base.find? [key] with
    | none => exact hfound
    | some earlier => exact ih (hbase.find? hearlier) (hoverlay.find? hlater) hfound _

/-- Nothing stands below a leaf of the overlay. -/
theorem find?_merge_of_hasLeafAbove (hbase : Ordered base) (hoverlay : Ordered overlay)
    (habove : overlay.HasLeafAbove keys) (path : String) :
    overlay.find? keys = none ∧ (merge path base overlay).value.find? keys = none := by
  induction keys generalizing path base overlay with
  | nil => exact absurd habove not_hasLeafAbove_nil
  | cons key keys ih =>
    rcases hasLeafAbove_cons.mp habove with hleaf | ⟨later, hlater, hrest⟩
    · rw [merge_of_not_isTable hleaf, and_self]
      exact find?_of_not_isTable hleaf keys
    · rw [find?_merge_cons hoverlay, find?_cons, hlater]
      cases hearlier : base.find? [key] with
      | none =>
        have hnone := (ih hbase (hoverlay.find? hlater) hrest path).1
        exact ⟨hnone, hnone⟩
      | some earlier => exact ih (hbase.find? hearlier) (hoverlay.find? hlater) hrest _

/-- Where the overlay says nothing, everything is as it was. -/
theorem find?_merge_of_missing (hbase : Ordered base) (hoverlay : Ordered overlay)
    (hmissing : overlay.find? keys = none) (habove : ¬overlay.HasLeafAbove keys)
    (path : String) : (merge path base overlay).value.find? keys = base.find? keys := by
  induction keys generalizing path base overlay with
  | nil =>
    rw [find?_nil] at hmissing
    cases hmissing
  | cons key keys ih =>
    rw [hasLeafAbove_cons, not_or, Bool.not_eq_false] at habove
    rw [find?_merge_cons hoverlay, if_pos habove.1]
    cases hlater : overlay.find? [key] with
    | none => rfl
    | some later =>
      rw [find?_cons, hlater] at hmissing
      have hrest : ¬later.HasLeafAbove keys := fun hlaterAbove =>
        habove.2 ⟨later, hlater, hlaterAbove⟩
      rw [find?_cons base]
      cases hearlier : base.find? [key] with
      | none => exact hmissing
      | some earlier =>
        exact ih (hbase.find? hearlier) (hoverlay.find? hlater) hmissing hrest _

/-- The leaves of merged values are the overlay's, and those that it leaves alone. -/
theorem hasLeaf_merge_iff (hbase : Ordered base) (hoverlay : Ordered overlay)
    {path : String} {leaf : Toml} :
    (merge path base overlay).value.HasLeaf keys leaf ↔
      overlay.HasLeaf keys leaf ∨
        base.HasLeaf keys leaf ∧ overlay.find? keys = none ∧ ¬overlay.HasLeafAbove keys := by
  cases hvalue : overlay.find? keys with
  | some value =>
    have hfound := find?_merge_of_find? hbase hoverlay hvalue path
    have hsilent : ¬(base.HasLeaf keys leaf ∧ some value = none ∧
        ¬overlay.HasLeafAbove keys) := by
      rintro ⟨-, hnone, -⟩
      cases hnone
    rw [or_iff_left hsilent, HasLeaf, HasLeaf, hvalue, hfound, Option.some.injEq,
      Option.some.injEq]
    cases hisTable : value.isTable with
    | false => rw [mergeAt_of_not_isTable hisTable]
    | true =>
      constructor
      · rintro ⟨rfl, hleaf⟩
        rw [isTable_mergeAt, hisTable] at hleaf
        cases hleaf
      · rintro ⟨rfl, hleaf⟩
        rw [hisTable] at hleaf
        cases hleaf
  | none =>
    have hmissing : ¬overlay.HasLeaf keys leaf := by
      rintro ⟨hfound, -⟩
      cases hvalue.symm.trans hfound
    rw [or_iff_right hmissing]
    by_cases habove : overlay.HasLeafAbove keys
    · have hnone := (find?_merge_of_hasLeafAbove hbase hoverlay habove path).2
      simp [HasLeaf, hnone, habove]
    · have hsame := find?_merge_of_missing hbase hoverlay hvalue habove path
      simp [HasLeaf, hsame, habove]

/-- The tables of merged values are the overlay's, and those above which and in whose
place it puts no leaf. -/
theorem hasTable_merge_iff (hbase : Ordered base) (hoverlay : Ordered overlay)
    {path : String} :
    (merge path base overlay).value.HasTable keys ↔
      overlay.HasTable keys ∨
        base.HasTable keys ∧ (¬∃ leaf, overlay.HasLeaf keys leaf) ∧
          ¬overlay.HasLeafAbove keys := by
  cases hvalue : overlay.find? keys with
  | some value =>
    have hfound := find?_merge_of_find? hbase hoverlay hvalue path
    cases hisTable : value.isTable with
    | false =>
      have hleaf : ∃ leaf, overlay.HasLeaf keys leaf := ⟨value, hvalue, hisTable⟩
      rw [mergeAt_of_not_isTable hisTable, ← hvalue] at hfound
      simp [HasTable, hfound, hleaf]
    | true =>
      obtain ⟨entries, rfl⟩ := exists_table_of_isTable hisTable
      have htable : overlay.HasTable keys := ⟨entries, hvalue⟩
      have hmerged := isTable_mergeAt (keys.foldl keyPath path) (base.find? keys) (table entries)
      obtain ⟨merged, hmerged⟩ := exists_table_of_isTable hmerged
      rw [hmerged] at hfound
      exact iff_of_true ⟨merged, hfound⟩ (.inl htable)
  | none =>
    have hmissing : ¬overlay.HasTable keys := by
      rintro ⟨entries, hfound⟩
      cases hvalue.symm.trans hfound
    have hleaf : ¬∃ leaf, overlay.HasLeaf keys leaf := by
      rintro ⟨leaf, hfound, -⟩
      cases hvalue.symm.trans hfound
    by_cases habove : overlay.HasLeafAbove keys
    · have hnone := (find?_merge_of_hasLeafAbove hbase hoverlay habove path).2
      simp [HasTable, hvalue, hnone, habove]
    · have hsame := find?_merge_of_missing hbase hoverlay hvalue habove path
      simp [HasTable, hvalue, hsame, habove, hleaf]

end

end TournamentScoring.Toml
