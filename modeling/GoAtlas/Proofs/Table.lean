import GoAtlas.Table

/-!
# Laws of tables

A table is read through `get?`. Writing a name changes what that name gives and
nothing else, and the names of a table are those that give a value, each once
and in increasing order. Every other law about tables follows from these, so no
later proof looks at the list of entries.
-/

namespace GoAtlas.Table

variable {α : Type u} {β : Type v}
variable {entries : List (String × α)} {key : String} {value : α} {table : Table α}

/-- A smaller name is another name. -/
theorem ne_of_key_lt {a b : String} (h : a < b) : a ≠ b := by
  rintro rfl
  exact String.lt_irrefl a h

/-- The order by name is transitive and total, as sorting asks for it. -/
theorem byName_trans (name : α → String) (a b c : α) (first : decide (name a ≤ name b) = true)
    (second : decide (name b ≤ name c) = true) : decide (name a ≤ name c) = true :=
  decide_eq_true (String.le_trans (of_decide_eq_true first) (of_decide_eq_true second))

theorem byName_total (name : α → String) (a b : α) :
    (decide (name a ≤ name b) || decide (name b ≤ name a)) = true := by
  rcases String.le_total (name a) (name b) with le | le
  · simp [le]
  · simp [le]

/-- The first entry answers for its own name. -/
theorem lookup_cons_ite (name : String) (old : α) (rest : List (String × α)) (key : String) :
    ((name, old) :: rest).lookup key = if key = name then some old else rest.lookup key := by
  by_cases h : key = name
  · rw [List.lookup_cons, h, beq_self_eq_true, if_pos rfl]
  · rw [List.lookup_cons, beq_false_of_ne h, if_neg h]

theorem lookup_eq_none_of_lt (h : ∀ entry ∈ entries, key < entry.1) :
    entries.lookup key = none := by
  induction entries with
  | nil => rfl
  | cons head rest ih =>
    rw [lookup_cons_ite, if_neg (ne_of_key_lt (h head List.mem_cons_self))]
    exact ih fun entry mem => h entry (List.mem_cons_of_mem _ mem)

/-- Insertion changes what one name gives, also in entries without order. -/
theorem lookup_insertEntry (key : String) (value : α) (entries : List (String × α))
    (k : String) :
    (insertEntry key value entries).lookup k =
      if k = key then some value else entries.lookup k := by
  induction entries with
  | nil => rw [insertEntry, lookup_cons_ite]
  | cons head rest ih =>
    obtain ⟨name, old⟩ := head
    simp only [insertEntry]
    split
    · rw [lookup_cons_ite]
    · split
      · next eq =>
        subst eq
        rw [lookup_cons_ite, lookup_cons_ite]
        by_cases h : k = key
        · rw [if_pos h, if_pos h]
        · rw [if_neg h, if_neg h, if_neg h]
      · next ne =>
        rw [lookup_cons_ite, lookup_cons_ite, ih]
        by_cases hn : k = name
        · have hk : k ≠ key := fun h => ne (h.symm.trans hn)
          rw [if_pos hn, if_neg hk, if_pos hn]
        · rw [if_neg hn, if_neg hn]

@[simp] theorem get?_empty (key : String) : (∅ : Table α).get? key = none := rfl

@[simp] theorem values_empty : (∅ : Table α).values = [] := rfl

section

variable (table : Table α)

/-- Writing a name changes what that name gives and nothing else. -/
theorem get?_insert (key : String) (value : α) (k : String) :
    (table.insert key value).get? k = if k = key then some value else table.get? k :=
  lookup_insertEntry key value table.entries k

@[simp] theorem get?_insert_self (key : String) (value : α) :
    (table.insert key value).get? key = some value := by
  rw [get?_insert, if_pos rfl]

theorem get?_insert_of_ne {k : String} (value : α) (h : k ≠ key) :
    (table.insert key value).get? k = table.get? k := by
  rw [get?_insert, if_neg h]

theorem mem_entries_iff (key : String) (value : α) :
    (key, value) ∈ table.entries ↔ table.get? key = some value := by
  obtain ⟨entries, increasing⟩ := table
  show (key, value) ∈ entries ↔ entries.lookup key = some value
  induction entries with
  | nil => simp
  | cons head rest ih =>
    obtain ⟨name, old⟩ := head
    obtain ⟨above, tail⟩ := List.pairwise_cons.1 increasing
    rw [List.mem_cons, lookup_cons_ite, ih tail]
    by_cases h : key = name
    · subst h
      have absent : rest.lookup key = none := lookup_eq_none_of_lt above
      simp [absent, eq_comm]
    · simp [h]

/-- The names of a table are those that give a value. -/
theorem isEmpty_iff : table.isEmpty = true ↔ table = ∅ := by
  constructor
  · intro empty
    exact ext (List.isEmpty_iff.1 empty)
  · rintro rfl
    rfl

theorem isEmpty_iff_get? : table.isEmpty = true ↔ ∀ key, table.get? key = none := by
  constructor
  · intro empty key
    rw [(isEmpty_iff table).1 empty]
    rfl
  · intro none
    cases entries : table.entries with
    | nil => simp [isEmpty, entries]
    | cons head rest =>
      have first : (head.1, head.2) ∈ table.entries := entries ▸ List.mem_cons_self
      rw [mem_entries_iff, none] at first
      cases first

theorem mem_keys_iff (key : String) : key ∈ table.keys ↔ ∃ value, table.get? key = some value := by
  simp only [keys, List.mem_map, Prod.exists, exists_and_right, exists_eq_right, mem_entries_iff]

/-- The names of a table are in increasing order. -/
theorem keys_increasing : table.keys.Pairwise (· < ·) :=
  List.pairwise_map.2 table.increasing

theorem contains_iff (key : String) :
    table.contains key = true ↔ ∃ value, table.get? key = some value := by
  rw [contains, Option.isSome_iff_exists]

/-- A name is written unless it gives a value already. -/
theorem get?_insertIfNew (key : String) (value : α) (k : String) :
    (table.insertIfNew key value).get? k =
      if k = key then some ((table.get? key).getD value) else table.get? k := by
  unfold insertIfNew contains
  cases h : table.get? key with
  | none => simp [get?_insert]
  | some old =>
    by_cases hk : k = key
    · simp [hk, h]
    · simp [hk]

end

/-! ## Tables of lists -/

theorem mem_of_get?_foldl
    (there : (entries.foldl (fun table entry => table.insert entry.1 entry.2) table).get? key =
      some value) : (key, value) ∈ entries ∨ table.get? key = some value := by
  induction entries generalizing table with
  | nil => exact .inr there
  | cons entry rest ih =>
    rcases ih there with later | here
    · exact .inl (List.mem_cons_of_mem _ later)
    · rw [get?_insert] at here
      split at here
      · next same =>
        cases Option.some.inj here
        rw [same]
        exact .inl List.mem_cons_self
      · exact .inr here

theorem mem_of_get?_ofList (there : (ofList entries).get? key = some value) :
    (key, value) ∈ entries := by
  rcases mem_of_get?_foldl there with mem | empty
  · exact mem
  · cases empty

theorem contains_foldl {entries : List (String × α)} {table : Table α} {key : String}
    (there : table.contains key = true ∨ ∃ value, (key, value) ∈ entries) :
    (entries.foldl (fun table entry => table.insert entry.1 entry.2) table).contains key =
      true := by
  induction entries generalizing table with
  | nil =>
    rcases there with there | ⟨_, mem⟩
    · exact there
    · cases mem
  | cons entry rest ih =>
    refine ih ?_
    rw [contains, get?_insert]
    by_cases same : key = entry.1
    · exact .inl (by rw [if_pos same]; rfl)
    · rw [if_neg same]
      rcases there with there | ⟨value, mem⟩
      · exact .inl there
      · rcases List.mem_cons.1 mem with rfl | mem
        · exact absurd rfl same
        · exact .inr ⟨value, mem⟩

theorem contains_ofList (mem : (key, value) ∈ entries) : (ofList entries).contains key = true :=
  contains_foldl (.inr ⟨value, mem⟩)

theorem get?_map (f : α → β) (table : Table α) (key : String) :
    (table.map f).get? key = (table.get? key).map f := by
  obtain ⟨entries, increasing⟩ := table
  show (entries.map fun entry => (entry.1, f entry.2)).lookup key = (entries.lookup key).map f
  clear increasing
  induction entries with
  | nil => rfl
  | cons head rest ih =>
    obtain ⟨name, value⟩ := head
    rw [List.map_cons, lookup_cons_ite, lookup_cons_ite, ih]
    split <;> rfl

/-- A name that is greater than all others goes to the end. -/
theorem insertEntry_of_lt (value : α) (last : ∀ entry ∈ entries, entry.1 < key) :
    insertEntry key value entries = entries ++ [(key, value)] := by
  induction entries with
  | nil => rfl
  | cons head rest ih =>
    have lt := last head List.mem_cons_self
    have not_lt : ¬ key < head.1 := fun above => String.lt_irrefl _ (String.lt_trans lt above)
    rw [insertEntry, if_neg not_lt, if_neg (ne_of_key_lt lt).symm,
      ih fun entry mem => last entry (List.mem_cons_of_mem _ mem), List.cons_append]

theorem entries_foldl (table : Table α)
    (increasing : (table.entries ++ entries).Pairwise fun a b => a.1 < b.1) :
    (entries.foldl (fun table entry => table.insert entry.1 entry.2) table).entries =
      table.entries ++ entries := by
  induction entries generalizing table with
  | nil => simp
  | cons entry rest ih =>
    have last : ∀ other ∈ table.entries, other.1 < entry.1 := by
      intro other mem
      exact (List.pairwise_append.1 increasing).2.2 other mem entry List.mem_cons_self
    have next : (table.insert entry.1 entry.2).entries = table.entries ++ [entry] :=
      insertEntry_of_lt entry.2 last
    rw [List.foldl_cons, ih, next, List.append_assoc, List.singleton_append]
    rw [next, List.append_assoc, List.singleton_append]
    exact increasing

/-- A table is the table of its entries. -/
theorem ofList_entries (table : Table α) : ofList table.entries = table :=
  ext (entries_foldl empty table.increasing)

theorem mem_values_iff (table : Table α) (value : α) :
    value ∈ table.values ↔ ∃ key, table.get? key = some value := by
  simp only [values, List.mem_map, Prod.exists, exists_eq_right, mem_entries_iff]

/-- Tables that give the same are the same. -/
theorem ext_get? {other : Table α} (same : ∀ key, table.get? key = other.get? key) :
    table = other := by
  have distinct (table : Table α) : table.entries.Nodup :=
    table.increasing.imp fun lt eq => ne_of_key_lt lt (congrArg Prod.fst eq)
  refine ext (List.Perm.eq_of_pairwise ?_ table.increasing other.increasing ?_)
  · intro a b _ _ above below
    exact absurd (String.lt_trans above below) (String.lt_irrefl a.1)
  · rw [List.perm_ext_iff_of_nodup (distinct table) (distinct other)]
    rintro ⟨key, value⟩
    rw [mem_entries_iff, mem_entries_iff, same]

/-- Where no name is written twice, every entry counts. -/
theorem get?_foldl_of_mem (nodup : (entries.map Prod.fst).Nodup) (mem : (key, value) ∈ entries) :
    (entries.foldl (fun table entry => table.insert entry.1 entry.2) table).get? key =
      some value := by
  induction entries generalizing table with
  | nil => cases mem
  | cons head rest ih =>
    obtain ⟨new, nodup⟩ := List.nodup_cons.1 nodup
    rcases List.mem_cons.1 mem with rfl | mem
    · have self := get?_insert_self table key value
      have kept := @contains_foldl α rest _ key (.inl ((contains_iff _ _).2 ⟨value, self⟩))
      obtain ⟨found, there⟩ := (contains_iff _ _).1 kept
      rcases mem_of_get?_foldl there with later | before
      · exact absurd (List.mem_map_of_mem later) new
      · exact there.trans (before.symm.trans self)
    · exact ih nodup mem

theorem get?_ofList_iff (nodup : (entries.map Prod.fst).Nodup) :
    (ofList entries).get? key = some value ↔ (key, value) ∈ entries :=
  ⟨mem_of_get?_ofList, get?_foldl_of_mem nodup⟩

/-- Where no name is written twice, the order of writing does not matter. -/
theorem ofList_perm {others : List (String × α)} (perm : entries.Perm others)
    (nodup : (entries.map Prod.fst).Nodup) : ofList entries = ofList others := by
  have nodup' := (perm.map Prod.fst).nodup_iff.1 nodup
  refine ext_get? fun key => Option.ext fun value => ?_
  rw [get?_ofList_iff nodup, get?_ofList_iff nodup', perm.mem_iff]

end GoAtlas.Table

namespace GoAtlas.NameSet

/-- The names of a set after one more is added. -/
theorem mem_toList_add (set : NameSet) (name k : String) :
    k ∈ (NameSet.add set name).toList ↔ k = name ∨ k ∈ NameSet.toList set := by
  rw [toList, toList, Table.mem_keys_iff, Table.mem_keys_iff]
  simp only [add, Table.get?_insert]
  by_cases h : k = name <;> simp [h]

theorem mem_toList_addAll (set : NameSet) (names : List String) (k : String) :
    k ∈ (NameSet.addAll set names).toList ↔ k ∈ names ∨ k ∈ NameSet.toList set := by
  induction names generalizing set with
  | nil => simp [addAll]
  | cons name rest ih =>
    rw [addAll, List.foldl_cons, ← addAll, ih, mem_toList_add, List.mem_cons, or_assoc]
    exact or_left_comm

/-- Sets with the same names are the same. -/
theorem ext_toList {set other : NameSet}
    (same : ∀ name, name ∈ NameSet.toList set ↔ name ∈ NameSet.toList other) : set = other := by
  apply Table.ext_get?
  intro name
  have same := same name
  rw [toList, toList, Table.mem_keys_iff, Table.mem_keys_iff] at same
  cases there : Table.get? set name with
  | none =>
    cases there' : Table.get? other name with
    | none => rfl
    | some _ =>
      obtain ⟨_, found⟩ := same.2 ⟨_, there'⟩
      cases there.symm.trans found
  | some _ =>
    obtain ⟨_, found⟩ := same.1 ⟨_, there⟩
    exact found.symm

theorem contains_add (set : NameSet) (name k : String) :
    Table.contains (NameSet.add set name) k = true ↔ k = name ∨ Table.contains set k = true := by
  rw [Table.contains_iff, Table.contains_iff]
  simp only [add, Table.get?_insert]
  by_cases h : k = name <;> simp [h]

/-- A set is the set of its names. -/
theorem ofNames_toList (set : NameSet) : ofNames set.toList = set := by
  rw [ofNames, addAll, toList, Table.keys, List.foldl_map]
  exact Table.ofList_entries set

end GoAtlas.NameSet
