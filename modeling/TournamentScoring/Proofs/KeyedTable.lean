import TournamentScoring.KeyedTable

/-!
# Looking up what was put in

A table answers a key with the last value that was put under it.  Keys are
exactly the keys that were put in, so a table that is built from a list knows the
keys of the list and no others.  Two tables that answer alike are equal, so the
order in which entries with different keys are put in does not matter.
-/

namespace TournamentScoring.KeyedTable

variable {α : Type}

theorem lookup_cons_eq_ite (key : String) (value : α)
    (entries : List (String × α)) (other : String) :
    ((key, value) :: entries).lookup other =
      if other = key then some value else entries.lookup other := by
  by_cases heq : other = key
  · rw [if_pos heq, heq, List.lookup_cons_self]
  · have hbeq : (other == key) = false := beq_eq_false_iff_ne.mpr heq
    rw [if_neg heq, List.lookup_cons, hbeq]

theorem lookup_insertEntry (key : String) (value : α)
    (entries : List (String × α)) (other : String) :
    (insertEntry key value entries).lookup other =
      if other = key then some value else entries.lookup other := by
  induction entries with
  | nil => exact lookup_cons_eq_ite key value [] other
  | cons head rest ih =>
    rw [insertEntry]
    split
    · exact lookup_cons_eq_ite key value (head :: rest) other
    · rw [lookup_cons_eq_ite head.1 head.2 rest]
      split
      · rename_i heq
        rw [lookup_cons_eq_ite, heq]
        by_cases hother : other = head.1 <;> simp only [hother, if_true, if_false]
      · rename_i hne
        rw [lookup_cons_eq_ite head.1 head.2, ih]
        by_cases hhead : other = head.1
        · rw [if_pos hhead, if_pos hhead, if_neg fun h => hne (h.symm.trans hhead)]
        · rw [if_neg hhead, if_neg hhead]

@[simp]
theorem get?_empty (key : String) : (empty : KeyedTable α).get? key = none := rfl

theorem get?_insert (table : KeyedTable α) (key : String) (value : α)
    (other : String) :
    (table.insert key value).get? other =
      if other = key then some value else table.get? other :=
  lookup_insertEntry key value table.entries other

theorem mem_map_fst_iff_isSome (entries : List (String × α)) (key : String) :
    key ∈ entries.map (·.1) ↔ (entries.lookup key).isSome := by
  rw [List.lookup_isSome_iff, List.mem_map]
  simp only [beq_iff_eq, eq_comm (a := key)]

theorem lookup_eq_none_iff (entries : List (String × α)) (key : String) :
    entries.lookup key = none ↔ key ∉ entries.map (·.1) := by
  rw [mem_map_fst_iff_isSome, Option.not_isSome_iff_eq_none]

/-- A key is listed exactly when it has a value. -/
theorem mem_keys_iff_isSome (table : KeyedTable α) (key : String) :
    key ∈ table.keys ↔ (table.get? key).isSome :=
  mem_map_fst_iff_isSome table.entries key

theorem get?_eq_none_iff (table : KeyedTable α) (key : String) :
    table.get? key = none ↔ key ∉ table.keys :=
  lookup_eq_none_iff table.entries key

theorem mem_keys_insert (table : KeyedTable α) (key : String) (value : α)
    (other : String) :
    other ∈ (table.insert key value).keys ↔
      other = key ∨ other ∈ table.keys := by
  rw [mem_keys_iff_isSome, mem_keys_iff_isSome, get?_insert]
  by_cases heq : other = key <;> simp [heq]

theorem mem_keys_foldl_insert (entries : List (String × α))
    (table : KeyedTable α) (key : String) :
    key ∈ (entries.foldl (fun table entry => table.insert entry.1 entry.2)
        table).keys ↔
      key ∈ entries.map (·.1) ∨ key ∈ table.keys := by
  induction entries generalizing table with
  | nil => simp
  | cons entry rest ih =>
    rw [List.foldl_cons, ih, mem_keys_insert]
    simp [or_assoc, or_left_comm]

/-- The keys of a table are the keys of the list that it was built from. -/
theorem mem_keys_ofList (entries : List (String × α)) (key : String) :
    key ∈ (ofList entries).keys ↔ key ∈ entries.map (·.1) := by
  rw [ofList, mem_keys_foldl_insert]
  simp [empty, keys]

theorem entries_foldl_insert (entries : List (String × α)) (table : KeyedTable α) :
    (entries.foldl (fun table entry => table.insert entry.1 entry.2) table).entries =
      entries.foldl (fun list entry => insertEntry entry.1 entry.2 list) table.entries := by
  induction entries generalizing table with
  | nil => rfl
  | cons entry rest ih => exact ih (table.insert entry.1 entry.2)

theorem get?_foldl_insert (entries : List (String × α)) (table : KeyedTable α)
    (key : String) :
    (entries.foldl (fun table entry => table.insert entry.1 entry.2) table).get?
        key =
      (entries.reverse.lookup key).or (table.get? key) := by
  induction entries generalizing table with
  | nil => rfl
  | cons entry rest ih =>
    obtain ⟨first, value⟩ := entry
    rw [List.foldl_cons, ih, get?_insert, List.reverse_cons, List.lookup_append,
      Option.or_assoc, lookup_cons_eq_ite]
    by_cases heq : key = first
    · rw [if_pos heq, if_pos heq, Option.some_or]
    · rw [if_neg heq, if_neg heq, List.lookup_nil, Option.none_or]

/-- A table that is built from a list knows the last value of every key. -/
theorem get?_ofList (entries : List (String × α)) (key : String) :
    (ofList entries).get? key = entries.reverse.lookup key := by
  rw [ofList, get?_foldl_insert, get?_empty, Option.or_none]

theorem get?_ofList_append (entries others : List (String × α)) (key : String) :
    (ofList (entries ++ others)).get? key =
      ((ofList others).get? key).or ((ofList entries).get? key) := by
  rw [get?_ofList, get?_ofList, get?_ofList, List.reverse_append, List.lookup_append]

/-! ## Equality -/

/-- Two lists that are in one strict order are equal if they have the same
members. -/
theorem eq_of_pairwise_of_mem_iff {β : Type} {before : β → β → Prop}
    (hasymm : ∀ first second, before first second → ¬before second first)
    {left right : List β} (hleft : left.Pairwise before)
    (hright : right.Pairwise before)
    (hmem : ∀ entry, entry ∈ left ↔ entry ∈ right) : left = right := by
  have hnodup : ∀ {list : List β}, list.Pairwise before → list.Nodup := by
    intro list hlist
    refine hlist.imp fun {first second} hbefore heq => ?_
    rw [heq] at hbefore
    exact hasymm second second hbefore hbefore
  have hperm : left.Perm right :=
    (List.perm_ext_iff_of_nodup (hnodup hleft) (hnodup hright)).mpr hmem
  exact hperm.eq_of_pairwise
    (fun first second _ _ hfirst hsecond =>
      absurd hsecond (hasymm first second hfirst)) hleft hright

theorem pairwise_keys (table : KeyedTable α) : table.keys.Pairwise (· < ·) :=
  List.pairwise_map.mpr table.ordered

theorem nodup_map_fst {entries : List (String × α)} (hordered : KeyOrdered entries) :
    (entries.map (·.1)).Nodup := by
  refine List.pairwise_map.mpr (hordered.imp fun {earlier later} hless heq => ?_)
  rw [heq] at hless
  exact String.lt_irrefl later.1 hless

theorem nodup_map_fst_reverse {entries : List (String × α)}
    (hnodup : (entries.map (·.1)).Nodup) : (entries.reverse.map (·.1)).Nodup := by
  rw [List.map_reverse]
  exact (List.reverse_perm _).nodup_iff.mpr hnodup

/-- Where no key is repeated, every entry is found under its key. -/
theorem lookup_eq_some_iff_mem {entries : List (String × α)}
    (hnodup : (entries.map (·.1)).Nodup) {key : String} {value : α} :
    entries.lookup key = some value ↔ (key, value) ∈ entries := by
  induction entries with
  | nil => simp
  | cons head rest ih =>
    obtain ⟨hhead, hrest⟩ := List.nodup_cons.mp hnodup
    rw [lookup_cons_eq_ite, List.mem_cons]
    by_cases heq : key = head.1
    · have hmissing : (key, value) ∉ rest := fun hmem =>
        hhead (List.mem_map.mpr ⟨_, hmem, heq⟩)
      rw [if_pos heq, or_iff_left hmissing, Option.some.injEq, heq]
      exact ⟨fun hvalue => hvalue ▸ rfl, fun hentry => hentry ▸ rfl⟩
    · rw [if_neg heq, ih hrest, or_iff_right]
      exact fun hentry => heq (hentry ▸ rfl)

theorem lookup_eq_of_perm {entries others : List (String × α)}
    (hperm : entries.Perm others) (hnodup : (entries.map (·.1)).Nodup)
    (key : String) : entries.lookup key = others.lookup key := by
  have hothers : (others.map (·.1)).Nodup :=
    (hperm.map (·.1)).nodup_iff.mp hnodup
  refine Option.ext fun value => ?_
  rw [lookup_eq_some_iff_mem hnodup, lookup_eq_some_iff_mem hothers, hperm.mem_iff]

theorem eq_of_lookup_eq {entries others : List (String × α)}
    (hentries : KeyOrdered entries) (hothers : KeyOrdered others)
    (hlookup : ∀ key, entries.lookup key = others.lookup key) : entries = others := by
  refine eq_of_pairwise_of_mem_iff (fun _ _ => String.lt_asymm) hentries hothers
    fun entry => ?_
  rw [← lookup_eq_some_iff_mem (nodup_map_fst hentries), hlookup,
    lookup_eq_some_iff_mem (nodup_map_fst hothers)]

/-- A table is what it answers. -/
@[ext]
theorem ext_get? {left right : KeyedTable α}
    (hget : ∀ key, left.get? key = right.get? key) : left = right := by
  obtain ⟨entries, hentries⟩ := left
  obtain ⟨others, hothers⟩ := right
  obtain rfl : entries = others := eq_of_lookup_eq hentries hothers hget
  rfl

/-- The order of entries with different keys does not matter. -/
theorem ofList_eq_of_perm {entries others : List (String × α)}
    (hperm : entries.Perm others) (hnodup : (entries.map (·.1)).Nodup) :
    ofList entries = ofList others := by
  ext1 key
  have hreverse := nodup_map_fst_reverse hnodup
  rw [get?_ofList, get?_ofList]
  exact lookup_eq_of_perm (((List.reverse_perm entries).trans hperm).trans
    (List.reverse_perm others).symm) hreverse key

/-- Entries that are in order stay as they are. -/
theorem entries_ofList {entries : List (String × α)} (hordered : KeyOrdered entries) :
    (ofList entries).entries = entries := by
  refine eq_of_lookup_eq (ofList entries).ordered hordered fun key => ?_
  have hreverse := nodup_map_fst_reverse (nodup_map_fst hordered)
  exact (get?_ofList entries key).trans
    (lookup_eq_of_perm (List.reverse_perm entries) hreverse key)

/-! ## Overlays -/

/-- A table under an overlay, whose values win. -/
def under (base overlay : KeyedTable α) : KeyedTable α :=
  overlay.entries.foldl (fun table entry => table.insert entry.1 entry.2) base

theorem get?_under (base overlay : KeyedTable α) (key : String) :
    (base.under overlay).get? key = (overlay.get? key).or (base.get? key) := by
  have hreverse := nodup_map_fst_reverse (nodup_map_fst overlay.ordered)
  rw [under, get?_foldl_insert,
    lookup_eq_of_perm (List.reverse_perm overlay.entries) hreverse]
  rfl

end TournamentScoring.KeyedTable
