import TournamentScoring.Configuration.Layer
import TournamentScoring.Proofs.KeyedTable
import TournamentScoring.Toml.NormalForm

/-!
# Looking into merged tables

Layers are merged in normal form, where every table lists its keys in increasing
order, and merging keeps this order.  A key of a merged table has the value of the
table that has it, and where both have it the two values merged; anything but a
table simply takes the place of what was there.
-/

namespace TournamentScoring.Toml

def isTable : Toml → Bool
  | table _ => true
  | _ => false

/-! ## Order of keys -/

mutual

/-- Tables list their keys in increasing order, as do the tables in them.  Nothing
is asked of arrays, which are never merged. -/
def Ordered : Toml → Prop
  | table entries => KeyOrdered entries ∧ OrderedValues entries
  | _ => True

def OrderedValues : List (String × Toml) → Prop
  | [] => True
  | (_, value) :: entries => Ordered value ∧ OrderedValues entries

end

theorem orderedValues_iff {entries : List (String × Toml)} :
    OrderedValues entries ↔ ∀ entry ∈ entries, Ordered entry.2 := by
  induction entries with
  | nil => exact iff_of_true trivial (by rintro _ ⟨⟩)
  | cons entry entries ih => rw [OrderedValues, ih, List.forall_mem_cons]

theorem Ordered.lookup {entries : List (String × Toml)}
    (hordered : Ordered (table entries)) {key : String} {value : Toml}
    (hvalue : entries.lookup key = some value) : Ordered value := by
  obtain ⟨hkeys, hvalues⟩ := hordered
  have hmem := (KeyedTable.lookup_eq_some_iff_mem
    (KeyedTable.nodup_map_fst hkeys)).mp hvalue
  exact orderedValues_iff.mp hvalues _ hmem

theorem orderedValues_insertEntry {key : String} {value : Toml}
    {entries : List (String × Toml)} (hvalue : Ordered value)
    (hentries : OrderedValues entries) :
    OrderedValues (insertEntry key value entries) := by
  rw [orderedValues_iff] at hentries ⊢
  intro entry hentry
  rcases mem_insertEntry hentry with rfl | hmem
  · exact hvalue
  · exact hentries entry hmem

theorem ordered_insertEntry {key : String} {value : Toml}
    {entries : List (String × Toml)} (hvalue : Ordered value)
    (hentries : Ordered (table entries)) :
    Ordered (table (insertEntry key value entries)) :=
  ⟨keyOrdered_insertEntry key value hentries.1,
    orderedValues_insertEntry hvalue hentries.2⟩

/-! ## Normal forms -/

theorem exists_moment_of_dateTime {date : Date} {rest : List Char}
    {found : Toml × List Char} (hfound : dateTime date rest = some found) :
    ∃ spelling, found.1 = moment spelling := by
  unfold dateTime at hfound
  dsimp only at hfound
  repeat' split at hfound
  all_goals first
    | exact ⟨_, congrArg Prod.fst (Option.some.inj hfound).symm⟩
    | cases hfound

theorem exists_moment_of_momentOfText? {text : String} {value : Toml}
    (hvalue : momentOfText? text = some value) :
    ∃ spelling, value = moment spelling := by
  unfold momentOfText? at hvalue
  split at hvalue
  · rename_i found hfound
    cases hvalue
    unfold readMoment at hfound
    split at hfound
    · exact exists_moment_of_dateTime hfound
    · obtain ⟨time, -, htime⟩ := Option.map_eq_some_iff.mp hfound
      exact ⟨_, congrArg Prod.fst htime.symm⟩
  · cases hvalue

mutual

/-- A value in normal form lists its keys in order. -/
theorem ordered_of_normalForm? {value normal : Toml}
    (hnormal : normalForm? value = some normal) : Ordered normal := by
  match value with
  | .text _ | .integer _ | .float _ | .boolean _ | .moment _ =>
    cases hnormal
    trivial
  | .array items =>
    obtain ⟨values, -, rfl⟩ := Option.map_eq_some_iff.mp hnormal
    trivial
  | .table entries =>
    rw [normalForm?] at hnormal
    split at hnormal
    · obtain ⟨spelling, rfl⟩ := exists_moment_of_momentOfText? hnormal
      trivial
    · cases hnormal
    · obtain ⟨found, hfound, rfl⟩ := Option.map_eq_some_iff.mp hnormal
      exact ordered_of_normalEntries? hfound

theorem ordered_of_normalEntries? {entries normal : List (String × Toml)}
    (hnormal : normalEntries? entries = some normal) : Ordered (table normal) := by
  match entries with
  | [] =>
    cases hnormal
    exact ⟨List.Pairwise.nil, trivial⟩
  | (key, value) :: entries =>
    obtain ⟨found, hvalue, hrest⟩ := Option.bind_eq_some_iff.mp hnormal
    obtain ⟨others, hentries, hinsert⟩ := Option.bind_eq_some_iff.mp hrest
    cases hinsert
    exact ordered_insertEntry (ordered_of_normalForm? hvalue)
      (ordered_of_normalEntries? hentries)

end

/-! ## Merging -/

/-- What stands under a key of two merged tables, by what stands there in each. -/
def mergeAt (path : String) (earlier : Option Toml) (later : Toml) : Toml :=
  match earlier with
  | none => later
  | some existing => (merge path existing later).value

/-- Only two tables are merged. -/
theorem merge_of_not_isTable {path : String} {base overlay : Toml}
    (hoverlay : overlay.isTable = false) : (merge path base overlay).value = overlay := by
  cases overlay with
  | table entries => cases hoverlay
  | _ => rw [merge]; nofun

theorem mergeAt_of_not_isTable {path : String} {earlier : Option Toml} {later : Toml}
    (hlater : later.isTable = false) : mergeAt path earlier later = later := by
  cases earlier with
  | none => rfl
  | some existing => exact merge_of_not_isTable hlater

/-- Whether the outcome is a table is up to the overlay. -/
theorem isTable_merge (path : String) (base overlay : Toml) :
    (merge path base overlay).value.isTable = overlay.isTable := by
  cases hoverlay : overlay.isTable with
  | false => rw [merge_of_not_isTable hoverlay, hoverlay]
  | true =>
    cases overlay with
    | table later =>
      cases base with
      | table entries => rw [merge]; rfl
      | _ =>
        rw [merge]
        · rfl
        · rintro _ ⟨⟩
    | _ => cases hoverlay

theorem isTable_mergeAt (path : String) (earlier : Option Toml) (later : Toml) :
    (mergeAt path earlier later).isTable = later.isTable := by
  cases earlier with
  | none => rfl
  | some existing => exact isTable_merge path existing later

theorem value_mergeEntries_cons (path key : String) (value : Toml)
    (entries overlay : List (String × Toml)) :
    (mergeEntries path entries ((key, value) :: overlay)).value =
      (mergeEntries path
        (insertEntry key (mergeAt (keyPath path key) (entries.lookup key) value) entries)
        overlay).value := by
  rw [mergeEntries]
  cases entries.lookup key with
  | none => rfl
  | some existing => rfl

/-- A key of the overlay has its value there merged with what stood under it. -/
theorem lookup_mergeEntries (path : String) {entries overlay : List (String × Toml)}
    (hdistinct : (overlay.map (·.1)).Nodup) (key : String) :
    (mergeEntries path entries overlay).value.lookup key =
      match overlay.lookup key with
      | none => entries.lookup key
      | some value => some (mergeAt (keyPath path key) (entries.lookup key) value) := by
  induction overlay generalizing entries with
  | nil => rw [mergeEntries]; rfl
  | cons head overlay ih =>
    obtain ⟨first, value⟩ := head
    obtain ⟨hfirst, hrest⟩ := List.nodup_cons.mp hdistinct
    rw [value_mergeEntries_cons, ih hrest, KeyedTable.lookup_insertEntry,
      KeyedTable.lookup_cons_eq_ite]
    by_cases heq : key = first
    · have hmissing : overlay.lookup key = none :=
        (KeyedTable.lookup_eq_none_iff overlay key).mpr (heq ▸ hfirst)
      rw [if_pos heq, if_pos heq, hmissing, heq]
    · rw [if_neg heq, if_neg heq]

mutual

theorem ordered_merge {path : String} {base overlay : Toml} (hbase : Ordered base)
    (hoverlay : Ordered overlay) : Ordered (merge path base overlay).value := by
  match overlay with
  | .text _ | .integer _ | .float _ | .boolean _ | .moment _ | .array _ =>
    rw [merge_of_not_isTable rfl]
    trivial
  | .table later =>
    cases base with
    | table entries =>
      rw [merge]
      exact ordered_mergeEntries hbase hoverlay.2
    | _ =>
      rw [merge]
      · exact hoverlay
      · nofun

theorem ordered_mergeEntries {path : String} {entries overlay : List (String × Toml)}
    (hentries : Ordered (table entries)) (hoverlay : OrderedValues overlay) :
    Ordered (table (mergeEntries path entries overlay).value) := by
  match overlay with
  | [] =>
    rw [mergeEntries]
    exact hentries
  | (key, value) :: overlay =>
    rw [value_mergeEntries_cons]
    refine ordered_mergeEntries (ordered_insertEntry ?_ hentries) hoverlay.2
    cases hexisting : entries.lookup key with
    | none => exact hoverlay.1
    | some existing => exact ordered_merge (hentries.lookup hexisting) hoverlay.1

end

end TournamentScoring.Toml
