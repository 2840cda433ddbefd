import TournamentScoring.Proofs.Toml.Paths

/-!
# What merging replaces

A value is replaced where both documents have one and the two are not both tables.  Such
places are found from the top, key by key, so they come in the order of their paths.  A
path is shown as its keys joined by points, except that empty keys at its beginning are
lost: the path of the whole document is empty too, and below it a key stands alone.
-/

namespace TournamentScoring.Toml

/-! ## Where documents collide -/

/-- Two documents collide at a path that leads through tables of both to two values which
are not both tables. -/
def Collides (base overlay : Toml) (path : List String) : Prop :=
  (∃ earlier later, base.find? path = some earlier ∧ overlay.find? path = some later ∧
    ¬(earlier.isTable = true ∧ later.isTable = true)) ∧
  ∀ above, above <+: path → above ≠ path → base.HasTable above ∧ overlay.HasTable above

section

variable {base overlay : Toml} {key : String} {keys : List String}

theorem collides_nil :
    Collides base overlay [] ↔ ¬(base.isTable = true ∧ overlay.isTable = true) := by
  rw [Collides, find?_nil, find?_nil]
  constructor
  · rintro ⟨⟨earlier, later, hearlier, hlater, htables⟩, -⟩
    cases hearlier
    cases hlater
    exact htables
  · intro htables
    refine ⟨⟨base, overlay, rfl, rfl, htables⟩, ?_⟩
    intro above hprefix hne
    exact absurd (List.prefix_nil.mp hprefix) hne

/-- Documents collide below a key where its values do. -/
theorem collides_cons :
    Collides base overlay (key :: keys) ↔
      ∃ earlier later, base.find? [key] = some earlier ∧ overlay.find? [key] = some later ∧
        Collides earlier later keys := by
  constructor
  · rintro ⟨⟨found, other, hfound, hother, htables⟩, habove⟩
    rw [find?_cons] at hfound hother
    obtain ⟨earlier, hearlier, hfound⟩ := Option.bind_eq_some_iff.mp hfound
    obtain ⟨later, hlater, hother⟩ := Option.bind_eq_some_iff.mp hother
    refine ⟨earlier, later, hearlier, hlater, ⟨found, other, hfound, hother, htables⟩, ?_⟩
    intro above hprefix hne
    have htablesAbove := habove (key :: above)
      (List.cons_prefix_cons.mpr ⟨rfl, hprefix⟩) fun heq => hne (List.cons.inj heq).2
    rwa [hasTable_cons hearlier, hasTable_cons hlater] at htablesAbove
  · rintro ⟨earlier, later, hearlier, hlater, ⟨found, other, hfound, hother, htables⟩, habove⟩
    refine ⟨⟨found, other, ?_, ?_, htables⟩, ?_⟩
    · rw [find?_cons, hearlier]
      exact hfound
    · rw [find?_cons, hlater]
      exact hother
    · intro above hprefix hne
      cases above with
      | nil =>
        rw [hasTable_nil, hasTable_nil]
        exact ⟨isTable_of_find? hearlier, isTable_of_find? hlater⟩
      | cons first rest =>
        obtain ⟨rfl, hrest⟩ := List.cons_prefix_cons.mp hprefix
        rw [hasTable_cons hearlier, hasTable_cons hlater]
        exact habove rest hrest fun heq => hne (heq ▸ rfl)

end

/-! ## The collisions in order -/

mutual

/-- The paths at which two documents collide, key by key. -/
def collisions (base : Toml) : Toml → List (List String)
  | table overlay =>
    match base with
    | table entries => entryCollisions entries overlay
    | _ => [[]]
  | _ => [[]]

def entryCollisions (entries : List (String × Toml)) :
    List (String × Toml) → List (List String)
  | [] => []
  | (key, value) :: overlay =>
    (match entries.lookup key with
      | none => []
      | some existing => (collisions existing value).map (key :: ·)) ++
      entryCollisions entries overlay

end

theorem collisions_of_not_tables {base overlay : Toml}
    (htables : ¬(base.isTable = true ∧ overlay.isTable = true)) :
    collisions base overlay = [[]] := by
  cases overlay with
  | table others =>
    cases base with
    | table entries => exact absurd ⟨rfl, rfl⟩ htables
    | _ => rw [collisions]; rintro _ ⟨⟩
  | _ => rw [collisions]; rintro _ ⟨⟩

theorem mem_entryCollisions_iff {entries overlay : List (String × Toml)}
    {path : List String} :
    path ∈ entryCollisions entries overlay ↔
      ∃ key later earlier keys, (key, later) ∈ overlay ∧ entries.lookup key = some earlier ∧
        path = key :: keys ∧ keys ∈ collisions earlier later := by
  induction overlay with
  | nil => simp [entryCollisions]
  | cons entry overlay ih =>
    obtain ⟨first, value⟩ := entry
    rw [entryCollisions, List.mem_append, ih]
    constructor
    · rintro (hfirst | ⟨key, later, earlier, keys, hmem, hrest⟩)
      · cases hearlier : entries.lookup first with
        | none =>
          rw [hearlier] at hfirst
          cases hfirst
        | some earlier =>
          rw [hearlier] at hfirst
          obtain ⟨keys, hkeys, rfl⟩ := List.mem_map.mp hfirst
          exact ⟨first, value, earlier, keys, List.mem_cons_self, hearlier, rfl, hkeys⟩
      · exact ⟨key, later, earlier, keys, List.mem_cons_of_mem _ hmem, hrest⟩
    · rintro ⟨key, later, earlier, keys, hmem, hearlier, rfl, hkeys⟩
      rcases List.mem_cons.mp hmem with heq | hmem
      · cases heq
        rw [hearlier]
        exact .inl (List.mem_map_of_mem hkeys)
      · exact .inr ⟨key, later, earlier, keys, hmem, hearlier, rfl, hkeys⟩

/-- The collisions are complete and nothing else is among them. -/
theorem mem_collisions_iff {base overlay : Toml} (hbase : Ordered base)
    (hoverlay : Ordered overlay) {path : List String} :
    path ∈ collisions base overlay ↔ Collides base overlay path := by
  induction path generalizing base overlay with
  | nil =>
    rw [collides_nil]
    by_cases htables : base.isTable = true ∧ overlay.isTable = true
    · obtain ⟨entries, rfl⟩ := exists_table_of_isTable htables.1
      obtain ⟨others, rfl⟩ := exists_table_of_isTable htables.2
      rw [collisions, mem_entryCollisions_iff]
      refine iff_of_false ?_ (not_not_intro htables)
      rintro ⟨key, later, earlier, keys, -, -, hpath, -⟩
      cases hpath
    · rw [collisions_of_not_tables htables]
      exact iff_of_true List.mem_cons_self htables
  | cons key keys ih =>
    rw [collides_cons]
    by_cases htables : base.isTable = true ∧ overlay.isTable = true
    · obtain ⟨entries, rfl⟩ := exists_table_of_isTable htables.1
      obtain ⟨others, rfl⟩ := exists_table_of_isTable htables.2
      rw [collisions, mem_entryCollisions_iff, find?_table, find?_table]
      have hdistinct := KeyedTable.nodup_map_fst hoverlay.1
      constructor
      · rintro ⟨first, later, earlier, rest, hmem, hearlier, hpath, hrest⟩
        cases hpath
        have hlater := (KeyedTable.lookup_eq_some_iff_mem hdistinct).mpr hmem
        exact ⟨earlier, later, hearlier, hlater,
          (ih (hbase.lookup hearlier) (hoverlay.lookup hlater)).mp hrest⟩
      · rintro ⟨earlier, later, hearlier, hlater, hrest⟩
        have hmem := (KeyedTable.lookup_eq_some_iff_mem hdistinct).mp hlater
        exact ⟨key, later, earlier, keys, hmem, hearlier, rfl,
          (ih (hbase.lookup hearlier) (hoverlay.lookup hlater)).mpr hrest⟩
    · rw [collisions_of_not_tables htables]
      refine iff_of_false (by simp) ?_
      rintro ⟨earlier, later, hearlier, hlater, -⟩
      exact htables ⟨isTable_of_find? hearlier, isTable_of_find? hlater⟩

mutual

/-- The collisions come in the order of their paths, each once. -/
theorem pairwise_collisions {base overlay : Toml} (hoverlay : Ordered overlay) :
    (collisions base overlay).Pairwise (· < ·) := by
  match overlay with
  | .text _ | .integer _ | .float _ | .boolean _ | .moment _ | .array _ =>
    rw [collisions_of_not_tables (by rintro ⟨-, ⟨⟩⟩)]
    exact List.pairwise_singleton _ _
  | .table others =>
    cases base with
    | table entries =>
      rw [collisions]
      exact pairwise_entryCollisions hoverlay.1 hoverlay.2
    | _ =>
      rw [collisions_of_not_tables (by rintro ⟨⟨⟩, -⟩)]
      exact List.pairwise_singleton _ _

theorem pairwise_entryCollisions {entries overlay : List (String × Toml)}
    (hkeys : KeyOrdered overlay) (hvalues : OrderedValues overlay) :
    (entryCollisions entries overlay).Pairwise (· < ·) := by
  match overlay with
  | [] =>
    rw [entryCollisions]
    exact List.Pairwise.nil
  | (key, value) :: overlay =>
    obtain ⟨hfirst, hrest⟩ := List.pairwise_cons.mp hkeys
    rw [entryCollisions]
    refine List.pairwise_append.mpr ⟨?_, pairwise_entryCollisions hrest hvalues.2, ?_⟩
    · cases entries.lookup key with
      | none => exact List.Pairwise.nil
      | some earlier =>
        refine List.pairwise_map.mpr ((pairwise_collisions hvalues.1).imp ?_)
        intro left right hless
        exact List.cons_lt_cons_iff.mpr (.inr ⟨rfl, hless⟩)
    · intro left hleft right hright
      obtain ⟨other, later, earlier, keys, hmem, -, rfl, -⟩ :=
        mem_entryCollisions_iff.mp hright
      have hless : key < other := hfirst _ hmem
      cases hearlier : entries.lookup key with
      | none =>
        rw [hearlier] at hleft
        cases hleft
      | some existing =>
        rw [hearlier] at hleft
        obtain ⟨rest, -, rfl⟩ := List.mem_map.mp hleft
        exact List.cons_lt_cons_iff.mpr (.inl hless)

end

/-! ## What is noted -/

/-- A key that is set before the others are looked up does not disturb them. -/
theorem entryCollisions_insertEntry {key : String} (value : Toml)
    (entries : List (String × Toml)) {overlay : List (String × Toml)}
    (hkey : key ∉ overlay.map (·.1)) :
    entryCollisions (insertEntry key value entries) overlay =
      entryCollisions entries overlay := by
  induction overlay with
  | nil => rw [entryCollisions, entryCollisions]
  | cons entry overlay ih =>
    obtain ⟨first, later⟩ := entry
    have hne : ¬first = key := fun heq => List.ne_of_not_mem_cons hkey heq.symm
    rw [entryCollisions, entryCollisions, ih (List.not_mem_of_not_mem_cons hkey),
      KeyedTable.lookup_insertEntry, if_neg hne]

mutual

/-- Merging notes its collisions, each as the keys that lead to it make a path. -/
theorem replaced_merge {base overlay : Toml} (hoverlay : Ordered overlay) (path : String) :
    (merge path base overlay).replaced =
      (collisions base overlay).map (List.foldl keyPath path) := by
  match overlay with
  | .text _ | .integer _ | .float _ | .boolean _ | .moment _ | .array _ =>
    rw [merge, collisions_of_not_tables (by rintro ⟨-, ⟨⟩⟩)]
    · rfl
    · nofun
  | .table others =>
    cases base with
    | table entries =>
      rw [merge, collisions]
      exact replaced_mergeEntries hoverlay.1 hoverlay.2 path
    | _ =>
      rw [merge, collisions_of_not_tables (by rintro ⟨⟨⟩, -⟩)]
      · rfl
      · nofun

theorem replaced_mergeEntries {entries overlay : List (String × Toml)}
    (hkeys : KeyOrdered overlay) (hvalues : OrderedValues overlay) (path : String) :
    (mergeEntries path entries overlay).replaced =
      (entryCollisions entries overlay).map (List.foldl keyPath path) := by
  match overlay with
  | [] =>
    rw [mergeEntries, entryCollisions]
    rfl
  | (key, value) :: overlay =>
    have hkey : key ∉ overlay.map (·.1) :=
      (List.nodup_cons.mp (KeyedTable.nodup_map_fst hkeys)).1
    have hrest := (List.pairwise_cons.mp hkeys).2
    rw [mergeEntries, entryCollisions, List.map_append]
    cases entries.lookup key with
    | none =>
      rw [replaced_mergeEntries hrest hvalues.2, entryCollisions_insertEntry value entries hkey]
      rfl
    | some earlier =>
      dsimp only
      rw [replaced_merge hvalues.1, replaced_mergeEntries hrest hvalues.2,
        entryCollisions_insertEntry _ entries hkey, List.map_map]
      rfl

end

/-! ## Paths as texts -/

/-- The keys of a path joined by points. -/
def dotted (path : List String) : String :=
  ".".intercalate path

/-- A path that goes on behind an empty first key. -/
def StartsBlank (path : List String) : Prop :=
  ∃ key rest, path = "" :: key :: rest

theorem dotted_cons_cons (first second : String) (rest : List String) :
    dotted (first :: second :: rest) = first ++ "." ++ dotted (second :: rest) :=
  String.intercalate_cons_cons

theorem dotted_singleton (key : String) : dotted [key] = key :=
  String.intercalate_singleton

theorem keyPath_of_ne {path : String} (hpath : path ≠ "") (key : String) :
    keyPath path key = path ++ "." ++ key := by
  rw [keyPath, if_neg (by simpa using hpath)]

theorem foldl_keyPath_of_ne {path : String} (hpath : path ≠ "") (keys : List String) :
    keys.foldl keyPath path = dotted (path :: keys) := by
  induction keys generalizing path with
  | nil => exact (dotted_singleton path).symm
  | cons key keys ih =>
    have hnext : path ++ "." ++ key ≠ "" := by simp
    rw [List.foldl_cons, keyPath_of_ne hpath, ih hnext, dotted_cons_cons]
    cases keys with
    | nil => rw [dotted_singleton, dotted_singleton]
    | cons second rest =>
      rw [dotted_cons_cons, dotted_cons_cons]
      simp only [String.append_assoc]

/-- The path of a list of keys begins with the first of them that is not empty. -/
theorem foldl_keyPath (keys : List String) :
    keys.foldl keyPath "" = dotted (keys.dropWhile (· = "")) := by
  induction keys with
  | nil => rfl
  | cons key keys ih =>
    by_cases hkey : key = ""
    · rw [hkey, List.dropWhile_cons_of_pos (by decide)]
      exact ih
    · rw [List.dropWhile_cons_of_neg (by simpa using hkey)]
      exact foldl_keyPath_of_ne hkey keys

theorem length_foldl_keyPath_le (keys : List String) :
    (keys.foldl keyPath "").length ≤ (dotted keys).length := by
  induction keys with
  | nil => exact Nat.le_refl 0
  | cons key keys ih =>
    by_cases hkey : key = ""
    · rw [hkey]
      refine Nat.le_trans ih ?_
      cases keys with
      | nil => exact Nat.zero_le _
      | cons second rest =>
        rw [dotted_cons_cons, String.length_append]
        exact Nat.le_add_left _ _
    · exact Nat.le_of_eq (congrArg String.length (foldl_keyPath_of_ne hkey keys))

/-- All keys are shown unless the path goes on behind an empty first key. -/
theorem foldl_keyPath_eq_dotted_iff (keys : List String) :
    keys.foldl keyPath "" = dotted keys ↔ ¬StartsBlank keys := by
  constructor
  · rintro heq ⟨key, rest, rfl⟩
    have hshort := length_foldl_keyPath_le (key :: rest)
    have hsame : ("" :: key :: rest).foldl keyPath "" = (key :: rest).foldl keyPath "" := rfl
    rw [← hsame, heq, dotted_cons_cons, String.length_append, String.length_append] at hshort
    have hpoint : ".".length = 1 := rfl
    omega
  · intro hblank
    cases keys with
    | nil => rfl
    | cons key rest =>
      by_cases hkey : key = ""
      · subst hkey
        cases rest with
        | nil => exact (dotted_singleton "").symm
        | cons second rest => exact absurd ⟨second, rest, rfl⟩ hblank
      · exact foldl_keyPath_of_ne hkey rest

/-! ## Merging with itself -/

mutual

/-- Under itself a value stays as it is. -/
theorem value_merge_self {value : Toml} (hvalue : Ordered value) (path : String) :
    (merge path value value).value = value := by
  match value with
  | .text _ | .integer _ | .float _ | .boolean _ | .moment _ | .array _ =>
    exact merge_of_not_isTable rfl
  | .table entries =>
    have hmerged : KeyOrdered (mergeEntries path entries entries).value :=
      (ordered_mergeEntries hvalue hvalue.2).1
    rw [merge]
    refine congrArg table (KeyedTable.eq_of_lookup_eq hmerged hvalue.1 fun key => ?_)
    rw [lookup_mergeEntries path (KeyedTable.nodup_map_fst hvalue.1)]
    cases hlookup : entries.lookup key with
    | none => rfl
    | some earlier =>
      have hmem := (KeyedTable.lookup_eq_some_iff_mem
        (KeyedTable.nodup_map_fst hvalue.1)).mp hlookup
      exact congrArg some (value_merge_self_of_mem hvalue.2 hmem _)

theorem value_merge_self_of_mem {entries : List (String × Toml)}
    (hvalues : OrderedValues entries) {key : String} {value : Toml}
    (hmem : (key, value) ∈ entries) (path : String) :
    (merge path value value).value = value := by
  match entries with
  | [] => cases hmem
  | (first, earliest) :: entries =>
    rcases List.mem_cons.mp hmem with heq | hrest
    · obtain ⟨-, rfl⟩ := Prod.mk.inj heq
      exact value_merge_self hvalues.1 path
    · exact value_merge_self_of_mem hvalues.2 hrest path

end

/-! ## Deep overlays -/

/-- Merging is a deep overlay: where the overlay has a leaf it wins, a leaf of the base is
kept where the overlay has nothing at its path and no leaf above it, and tables stand where
either has one unless the overlay has put a leaf there or above.  The collisions are noted
once each and in order, with their keys joined by points but for empty keys at the
beginning; so they are noted in full just where none of them goes on behind an empty first
key.  An empty overlay changes nothing, and neither does the base itself. -/
theorem merge_is_a_deep_overlay {entries others : List (String × Toml)}
    (hbase : Ordered (table entries)) (hoverlay : Ordered (table others)) :
    (∀ path leaf, (merge "" (table entries) (table others)).value.HasLeaf path leaf ↔
      (table others).HasLeaf path leaf ∨
        (table entries).HasLeaf path leaf ∧ (table others).find? path = none ∧
          ¬(table others).HasLeafAbove path) ∧
    (∀ path, (merge "" (table entries) (table others)).value.HasTable path ↔
      (table others).HasTable path ∨
        (table entries).HasTable path ∧ (¬∃ leaf, (table others).HasLeaf path leaf) ∧
          ¬(table others).HasLeafAbove path) ∧
    (∃ paths : List (List String),
      paths.Pairwise (· < ·) ∧
      (∀ path, path ∈ paths ↔ Collides (table entries) (table others) path) ∧
      (merge "" (table entries) (table others)).replaced =
        paths.map (fun path => dotted (path.dropWhile (· = ""))) ∧
      ((merge "" (table entries) (table others)).replaced = paths.map dotted ↔
        ∀ path, Collides (table entries) (table others) path → ¬StartsBlank path)) ∧
    merge "" (table entries) (table []) = ⟨table entries, []⟩ ∧
    (merge "" (table entries) (table entries)).value = table entries := by
  refine ⟨?_, ?_, ?_, ?_, value_merge_self hbase ""⟩
  · intro path leaf
    exact hasLeaf_merge_iff hbase hoverlay
  · intro path
    exact hasTable_merge_iff hbase hoverlay
  · have hmem : ∀ path, path ∈ collisions (table entries) (table others) ↔
        Collides (table entries) (table others) path :=
      fun path => mem_collisions_iff hbase hoverlay
    refine ⟨collisions (table entries) (table others), pairwise_collisions hoverlay, hmem,
      ?_, ?_⟩
    · rw [replaced_merge hoverlay]
      exact List.map_congr_left fun path _ => foldl_keyPath path
    · rw [replaced_merge hoverlay, List.map_inj_left]
      constructor
      · intro heq path hcollides
        exact (foldl_keyPath_eq_dotted_iff path).mp (heq path ((hmem path).mpr hcollides))
      · intro hblank path hpath
        exact (foldl_keyPath_eq_dotted_iff path).mpr (hblank path ((hmem path).mp hpath))
  · rw [merge, mergeEntries]

/-- Two settings under an empty key, and one beside it. -/
def unnamedSettings : List (String × Toml) :=
  [("", table [("x", integer 1), ("y", integer 2)]), ("z", integer 3)]

/-- One of them set anew, and a table in place of the one beside. -/
def unnamedOverlay : List (String × Toml) :=
  [("", table [("x", integer 4)]), ("z", table [("w", integer 5)])]

theorem ordered_unnamedSettings : Ordered (table unnamedSettings) := by
  have hkeys : KeyOrdered unnamedSettings := by
    unfold KeyOrdered
    decide
  have hinner : KeyOrdered [("x", integer 1), ("y", integer 2)] := by
    unfold KeyOrdered
    decide
  exact ⟨hkeys, ⟨hinner, trivial, trivial, trivial⟩, trivial, trivial⟩

theorem ordered_unnamedOverlay : Ordered (table unnamedOverlay) := by
  have hkeys : KeyOrdered unnamedOverlay := by
    unfold KeyOrdered
    decide
  exact ⟨hkeys, ⟨List.pairwise_singleton _ _, trivial, trivial⟩,
    ⟨List.pairwise_singleton _ _, trivial, trivial⟩, trivial⟩

theorem replaced_unnamedSettings :
    (merge "" (table unnamedSettings) (table unnamedOverlay)).replaced = ["x", "z"] := by
  decide +kernel

theorem collides_unnamedSettings :
    Collides (table unnamedSettings) (table unnamedOverlay) ["", "x"] := by
  apply (mem_collisions_iff ordered_unnamedSettings ordered_unnamedOverlay).mp
  decide +kernel

theorem unnamedSettings_under_unnamedOverlay :
    Ordered (table unnamedSettings) ∧ Ordered (table unnamedOverlay) ∧
      (merge "" (table unnamedSettings) (table unnamedOverlay)).value.HasLeaf ["", "y"]
        (integer 2) ∧
      (merge "" (table unnamedSettings) (table unnamedOverlay)).value.HasTable ["z"] ∧
      ∃ paths : List (List String), ["", "x"] ∈ paths ∧
        (merge "" (table unnamedSettings) (table unnamedOverlay)).replaced =
          paths.map (fun path => dotted (path.dropWhile (· = ""))) ∧
        (merge "" (table unnamedSettings) (table unnamedOverlay)).replaced ≠
          paths.map dotted := by
  obtain ⟨hleaf, htable, ⟨paths, -, hmem, hnoted, hfull⟩, -⟩ :=
    merge_is_a_deep_overlay ordered_unnamedSettings ordered_unnamedOverlay
  refine ⟨ordered_unnamedSettings, ordered_unnamedOverlay, ?_, ?_, paths,
    (hmem _).mpr collides_unnamedSettings, hnoted, ?_⟩
  · refine (hleaf _ _).mpr (.inr ⟨⟨rfl, rfl⟩, rfl, ?_⟩)
    rintro ⟨above, leaf, hprefix, hne, hfound, hisLeaf⟩
    have habove : above = [] ∨ above = [""] := by
      rcases above with _ | ⟨first, _ | ⟨second, rest⟩⟩ <;> simp_all
    rcases habove with rfl | rfl <;> cases hfound <;> cases hisLeaf
  · exact (htable _).mpr (.inl ⟨_, rfl⟩)
  · intro heq
    exact hfull.mp heq _ collides_unnamedSettings ⟨"x", [], rfl⟩

/-- The empty key of `x` is not noted. -/
theorem collisions_not_noted_in_full :
    ¬∀ entries others : List (String × Toml), Ordered (table entries) →
      Ordered (table others) → ∃ paths : List (List String),
        paths.Pairwise (· < ·) ∧
        (∀ path, path ∈ paths ↔ Collides (table entries) (table others) path) ∧
        (merge "" (table entries) (table others)).replaced = paths.map dotted := by
  intro hclaim
  obtain ⟨paths, -, hmem, hnoted⟩ := hclaim unnamedSettings unnamedOverlay
    ordered_unnamedSettings ordered_unnamedOverlay
  have hpath : ["", "x"] ∈ paths := (hmem _).mpr collides_unnamedSettings
  have hlisted : dotted ["", "x"] ∈ paths.map dotted := List.mem_map_of_mem hpath
  have htext : dotted ["", "x"] = ".x" := by
    rw [dotted_cons_cons, dotted_singleton]
    rfl
  rw [← hnoted, replaced_unnamedSettings, htext] at hlisted
  exact absurd hlisted (by decide)

end TournamentScoring.Toml
