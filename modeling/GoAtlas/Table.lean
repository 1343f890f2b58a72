/-!
# Tables

A table maps names to values and lists them in the order of the names. It is
kept as its list of entries in strictly increasing name order, so two tables
with the same entries are the same table.
-/

namespace GoAtlas

/-- A finite map from names, in increasing order of the names. -/
structure Table (α : Type u) where
  entries : List (String × α)
  increasing : entries.Pairwise fun a b => a.1 < b.1

namespace Table

/-- The entries after writing `value` under `key`: an entry of that name is
replaced, otherwise the new one goes before the first greater name. -/
def insertEntry (key : String) (value : α) : List (String × α) → List (String × α)
  | [] => [(key, value)]
  | (k, v) :: rest =>
    if key < k then (key, value) :: (k, v) :: rest
    else if key = k then (key, value) :: rest
    else (k, v) :: insertEntry key value rest

theorem mem_insertEntry {key : String} {value : α} {entry : String × α}
    {entries : List (String × α)} (h : entry ∈ insertEntry key value entries) :
    entry = (key, value) ∨ entry ∈ entries := by
  induction entries with
  | nil => simpa [insertEntry] using h
  | cons head rest ih =>
    obtain ⟨k, v⟩ := head
    simp only [insertEntry] at h
    split at h
    · simpa using h
    · split at h
      · rcases List.mem_cons.1 h with h | h
        · exact .inl h
        · exact .inr (List.mem_cons_of_mem _ h)
      · rcases List.mem_cons.1 h with h | h
        · exact .inr (h ▸ List.mem_cons_self)
        · exact (ih h).imp_right (List.mem_cons_of_mem _)

/-- Names are totally ordered. -/
theorem lt_of_not_lt_of_ne {a b : String} (not_lt : ¬ a < b) (ne : a ≠ b) : b < a := by
  rcases Std.lt_trichotomy a b with h | h | h
  · exact absurd h not_lt
  · exact absurd h ne
  · exact h

theorem increasing_insertEntry {key : String} {value : α} {entries : List (String × α)}
    (h : entries.Pairwise fun a b => a.1 < b.1) :
    (insertEntry key value entries).Pairwise fun a b => a.1 < b.1 := by
  induction entries with
  | nil => simp [insertEntry]
  | cons head rest ih =>
    obtain ⟨k, v⟩ := head
    obtain ⟨above, tail⟩ := List.pairwise_cons.1 h
    simp only [insertEntry]
    split
    · next lt =>
      refine List.pairwise_cons.2 ⟨fun entry mem => ?_, h⟩
      rcases List.mem_cons.1 mem with rfl | mem
      · exact lt
      · exact String.lt_trans lt (above entry mem)
    · next not_lt =>
      split
      · next eq => exact List.pairwise_cons.2 ⟨fun entry mem => eq ▸ above entry mem, tail⟩
      · next ne =>
        refine List.pairwise_cons.2 ⟨fun entry mem => ?_, ih tail⟩
        rcases mem_insertEntry mem with rfl | mem
        · exact lt_of_not_lt_of_ne not_lt ne
        · exact above entry mem

/-- The table without entries. -/
def empty : Table α :=
  ⟨[], .nil⟩

instance : EmptyCollection (Table α) := ⟨empty⟩

instance : Inhabited (Table α) := ⟨empty⟩

/-- The value under a name. -/
def get? (table : Table α) (key : String) : Option α :=
  table.entries.lookup key

/-- The name has a value. -/
def contains (table : Table α) (key : String) : Bool :=
  (table.get? key).isSome

/-- The table with `value` under `key`, in place of an earlier value. -/
def insert (table : Table α) (key : String) (value : α) : Table α :=
  ⟨insertEntry key value table.entries, increasing_insertEntry table.increasing⟩

/-- The table with `value` under `key` unless the name has a value already. -/
def insertIfNew (table : Table α) (key : String) (value : α) : Table α :=
  if table.contains key then table else table.insert key value

/-- The entries written one after the other: of two with one name the later
one counts. -/
def ofList (entries : List (String × α)) : Table α :=
  entries.foldl (fun table entry => table.insert entry.1 entry.2) empty

/-- The names in increasing order. -/
def keys (table : Table α) : List String :=
  table.entries.map (·.1)

/-- The values in the order of their names. -/
def values (table : Table α) : List α :=
  table.entries.map (·.2)

/-- No name has a value. -/
def isEmpty (table : Table α) : Bool :=
  table.entries.isEmpty

/-- Every value replaced by its image, under the same name. -/
def map (f : α → β) (table : Table α) : Table β :=
  ⟨table.entries.map fun entry => (entry.1, f entry.2),
    List.Pairwise.map _ (fun _ _ h => h) table.increasing⟩

/-- The value under a name replaced by its image; nothing when it has none. -/
def modify (table : Table α) (key : String) (f : α → α) : Table α :=
  match table.get? key with
  | some value => table.insert key (f value)
  | none => table

theorem ext {a b : Table α} (h : a.entries = b.entries) : a = b := by
  cases a; cases b; cases h; rfl

instance [DecidableEq α] : DecidableEq (Table α) := fun a b =>
  if h : a.entries = b.entries then .isTrue (ext h) else .isFalse fun eq => h (eq ▸ rfl)

end Table

/-- A finite set of names, listed in increasing order. -/
abbrev NameSet := Table Unit

namespace NameSet

/-- The set with one more name. -/
def add (set : NameSet) (name : String) : NameSet :=
  set.insert name ()

/-- The set with all the names of a list. -/
def addAll (set : NameSet) (names : List String) : NameSet :=
  names.foldl add set

/-- The set of the names of a list. -/
def ofNames (names : List String) : NameSet :=
  addAll ∅ names

/-- The names in increasing order. -/
def toList (set : NameSet) : List String :=
  Table.keys set

end NameSet

end GoAtlas
