/-!
# Tables with text keys

A table holds one value per key and lists its entries in increasing key order,
compared by code points.  The order is part of the type, so every listing of a
table is sorted and two tables with the same entries are equal.
-/

namespace TournamentScoring

/-- Entries in strictly increasing key order; no key occurs twice. -/
def KeyOrdered {α : Type} (entries : List (String × α)) : Prop :=
  entries.Pairwise fun earlier later => earlier.1 < later.1

/-- Puts an entry at its place in an ordered list.  An entry with the same key
is replaced. -/
def insertEntry {α : Type} (key : String) (value : α) :
    List (String × α) → List (String × α)
  | [] => [(key, value)]
  | head :: rest =>
    if key < head.1 then (key, value) :: head :: rest
    else if key = head.1 then (key, value) :: rest
    else head :: insertEntry key value rest

theorem mem_insertEntry {α : Type} {key : String} {value : α}
    {entry : String × α} {entries : List (String × α)}
    (hmem : entry ∈ insertEntry key value entries) :
    entry = (key, value) ∨ entry ∈ entries := by
  induction entries with
  | nil => simpa [insertEntry] using hmem
  | cons head rest ih =>
    rw [insertEntry] at hmem
    split at hmem
    · simpa using hmem
    · split at hmem
      · rcases List.mem_cons.mp hmem with hhead | hrest
        · exact Or.inl hhead
        · exact Or.inr (List.mem_cons_of_mem _ hrest)
      · rcases List.mem_cons.mp hmem with hhead | hrest
        · exact Or.inr (hhead ▸ List.mem_cons_self)
        · exact (ih hrest).imp_right (List.mem_cons_of_mem _)

theorem lt_of_not_lt_of_ne {left right : String} (hlt : ¬left < right)
    (hne : left ≠ right) : right < left := by
  rcases String.le_total left right with hle | hle
  · exact absurd (String.le_antisymm hle (String.not_lt.mp hlt)) hne
  · apply Classical.byContradiction
    intro hnot
    exact hne (String.le_antisymm (String.not_lt.mp hnot) hle)

theorem keyOrdered_insertEntry {α : Type} (key : String) (value : α)
    {entries : List (String × α)} (hordered : KeyOrdered entries) :
    KeyOrdered (insertEntry key value entries) := by
  induction entries with
  | nil => exact List.pairwise_singleton _ _
  | cons head rest ih =>
    obtain ⟨hhead, hrest⟩ := List.pairwise_cons.mp hordered
    rw [insertEntry]
    split
    · rename_i hlt
      refine List.pairwise_cons.mpr ⟨fun entry hentry => ?_, hordered⟩
      rcases List.mem_cons.mp hentry with heq | hmem
      · exact heq ▸ hlt
      · exact String.lt_trans hlt (hhead entry hmem)
    · split
      · rename_i heq
        exact List.pairwise_cons.mpr
          ⟨fun entry hentry => heq ▸ hhead entry hentry, hrest⟩
      · rename_i hlt hne
        refine List.pairwise_cons.mpr ⟨fun entry hentry => ?_, ih hrest⟩
        rcases mem_insertEntry hentry with heq | hmem
        · exact heq ▸ lt_of_not_lt_of_ne hlt hne
        · exact hhead entry hmem

/-- One value per key, listed in increasing key order. -/
structure KeyedTable (α : Type) where
  entries : List (String × α)
  ordered : KeyOrdered entries
deriving DecidableEq

namespace KeyedTable

variable {α : Type}

def empty : KeyedTable α where
  entries := []
  ordered := List.Pairwise.nil

instance : EmptyCollection (KeyedTable α) := ⟨empty⟩
instance : Inhabited (KeyedTable α) := ⟨empty⟩

/-- The value under a key. -/
def get? (table : KeyedTable α) (key : String) : Option α :=
  table.entries.lookup key

def contains (table : KeyedTable α) (key : String) : Bool :=
  (table.get? key).isSome

def keys (table : KeyedTable α) : List String :=
  table.entries.map (·.1)

/-- Sets the value under a key; an earlier value is lost. -/
def insert (table : KeyedTable α) (key : String) (value : α) : KeyedTable α where
  entries := insertEntry key value table.entries
  ordered := keyOrdered_insertEntry key value table.ordered

/-- The table of a list of entries; the last entry with a key wins. -/
def ofList (entries : List (String × α)) : KeyedTable α :=
  entries.foldl (fun table entry => table.insert entry.1 entry.2) empty

end KeyedTable

end TournamentScoring
