import GoAtlas.Locator
import GoAtlas.Proofs.FileTree

/-!
# What search roots find

A package found below search roots is the directory of a place, and its files are
the ones of that directory that take part under the tags. So the directory alone
settles the files: two locations that lead to the same directory select the same.
-/

namespace GoAtlas

variable {withTests : Bool}

/-- The files that are read for a package: those of the tests only where asked for. -/
def Located.selection (located : Located) (withTests : Bool) : List String :=
  located.files ++ if withTests then located.testFiles else []

variable {located : Located}

theorem Located.mem_of_mem_selection {name : String} (mem : name ∈ located.selection withTests) :
    name ∈ located.files ++ located.testFiles := by
  refine List.mem_append.2 ((List.mem_append.1 mem).imp_right fun mem => ?_)
  split at mem
  · exact mem
  · cases mem

/-- The answer that gives the package: a package without source is a fault. -/
def Located.answer (located : Located) : Except LocateFault Located :=
  if located.hasSource then .ok located else .error (.noSource located)

theorem Located.answer_of_selection (ne : located.selection withTests ≠ []) :
    located.answer = .ok located := by
  refine if_pos ?_
  cases files : located.files with
  | cons name rest => simp [Located.hasSource, files]
  | nil =>
    cases tests : located.testFiles with
    | cons name rest => simp [Located.hasSource, tests]
    | nil => simp [Located.selection, files, tests] at ne

theorem Text.eq_append_of_afterFirst? {inner text rest : List Char}
    (h : afterFirst? inner text = some rest) : ∃ before, text = before ++ (inner ++ rest) := by
  induction text with
  | nil =>
    unfold afterFirst? at h
    split at h
    next empty =>
      cases h
      exact ⟨[], by simpa using empty⟩
    next => cases h
  | cons c tail ih =>
    unfold afterFirst? at h
    split at h
    next after found =>
      cases h
      exact ⟨[], (List.isPrefixOf?_eq_some_iff_append_eq.1 found).symm⟩
    next =>
      obtain ⟨before, rfl⟩ := ih h
      exact ⟨c :: before, rfl⟩

/-- A path is canonical unless one of its pieces is `vendor`. -/
theorem ImportPath.canonical_eq_self {path : String}
    (plain : "vendor" ∉ (⟨path⟩ : FilePath).pieces) : canonical path = path := by
  unfold canonical
  split
  next rest found =>
    obtain ⟨before, text⟩ := Text.eq_append_of_afterFirst? found
    refine absurd ?_ plain
    have inner : "/vendor/".toList ++ rest = '/' :: ("vendor".toList ++ '/' :: rest) := by simp
    have piece : "vendor".toList.splitOn '/' = ["vendor".toList] := by decide
    rw [FilePath.pieces, text, inner, List.splitOn_append_cons_self,
      List.splitOn_append_cons_self, piece]
    simp
  next => rfl

namespace Roots

variable {roots : Roots} {tree : FileTree} {tags : NameSet}
variable {location importPath : String} {dir : FilePath} {names : List String} {withTests : Bool}

/-- The search roots lead to the package from some location, with source or without. -/
def Leads (roots : Roots) (tree : FileTree) (tags : NameSet) (located : Located) : Prop :=
  ∃ location, roots.locate tree tags location = located.answer

theorem selected_cons (dir : FilePath) (name : String) (rest : List String) :
    selected tree tags dir (name :: rest) =
      match tree.read (dir.join name) with
      | .error fault => .error (.unreadable (dir.join name) fault.message)
      | .ok content =>
        match selected tree tags dir rest with
        | .error fault => .error fault
        | .ok others => .ok (if takesPart tags content then name :: others else others) := by
  rw [selected]
  cases tree.read (dir.join name) with
  | error fault => rfl
  | ok content => cases selected tree tags dir rest <;> rfl

theorem selected_sublist {kept : List String} (h : selected tree tags dir names = .ok kept) :
    kept.Sublist names := by
  induction names generalizing kept with
  | nil => exact Except.ok.inj h ▸ .slnil
  | cons name rest ih =>
    rw [selected_cons] at h
    split at h
    next => cases h
    split at h
    next => cases h
    next others chosen =>
      have sublist := ih chosen
      rw [← Except.ok.inj h]
      split
      · exact sublist.cons_cons name
      · exact sublist.cons name

/-- The package is the directory of a place, with the files there that take part. -/
structure Describes (tree : FileTree) (tags : NameSet) (place : Place) (names : List String)
    (located : Located) : Prop where
  named : place.Named
  dir : located.dir = place.path
  selected : selected tree tags place.path ((tree.filesIn place).filter isSourceName) = .ok names
  files : located.files = names.filter (!isTestName ·)
  testFiles : located.testFiles = names.filter isTestName

theorem directory_named {place : Place}
    (h : roots.directory tree location = .ok (place, importPath)) : place.Named := by
  unfold directory at h
  split at h
  next =>
    dsimp only at h
    split at h
    next => cases h
    next found =>
      cases h
      exact FileTree.directory?_named found
  next =>
    split at h
    next found =>
      cases h
      obtain ⟨_, -, found⟩ := List.exists_of_findSome?_eq_some found
      exact FileTree.directory?_named found
    next => cases h

/-- Where nothing is called `vendor`, an import path that is looked for is canonical. -/
theorem canonical_of_directory (plain : ∀ entry ∈ tree.entries, "vendor" ∉ entry.1) {place : Place}
    (looked : isLocal location = false)
    (h : roots.directory tree location = .ok (place, importPath)) :
    ImportPath.canonical importPath = location := by
  rw [directory, looked, if_neg Bool.false_ne_true] at h
  split at h
  next found =>
    cases h
    refine ImportPath.canonical_eq_self fun mem => ?_
    obtain ⟨root, -, found⟩ := List.exists_of_findSome?_eq_some found
    have below : (⟨location⟩ : FilePath).isAbsolute = false := by
      unfold isLocal at looked
      simp only [Bool.or_eq_false_iff] at looked
      exact looked.2
    obtain ⟨entry, there, named⟩ := FileTree.directory?_enters (by decide) found
      (FilePath.mem_pieces_join below mem)
    exact plain entry there named
  next => cases h

variable {located : Located}

theorem directory_ne_noSource : roots.directory tree location ≠ .error (.noSource located) := by
  unfold directory
  split
  next =>
    dsimp only
    split <;> simp
  next => split <;> simp

theorem selected_ne_noSource : selected tree tags dir names ≠ .error (.noSource located) := by
  induction names with
  | nil => exact fun h => nomatch h
  | cons name rest ih =>
    intro h
    rw [selected_cons] at h
    split at h
    next => cases h
    split at h
    next failed => exact ih (failed.trans h)
    next => cases h

/-- Locating fails before it comes to a package, or gives the directory of a place. -/
theorem locate_cases (roots : Roots) (tree : FileTree) (tags : NameSet) (location : String) :
    (∃ fault, roots.locate tree tags location = .error fault
      ∧ ∀ located, fault ≠ .noSource located)
    ∨ ∃ located, roots.locate tree tags location = located.answer
      ∧ ∃ place names, roots.directory tree location = .ok (place, located.importPath)
        ∧ Describes tree tags place names located := by
  rw [locate]
  cases found : roots.directory tree location with
  | error fault =>
    exact .inl ⟨fault, rfl, fun _ eq => directory_ne_noSource (eq ▸ found)⟩
  | ok answer =>
    obtain ⟨place, importPath⟩ := answer
    cases chosen : selected tree tags place.path ((tree.filesIn place).filter isSourceName) with
    | error fault =>
      refine .inl ⟨fault, ?_, fun _ eq => selected_ne_noSource (eq ▸ chosen)⟩
      simp only [bind, Except.bind, chosen]
    | ok names =>
      refine .inr ⟨⟨importPath, place.path, names.filter (!isTestName ·), names.filter isTestName⟩,
        ?_, place, names, rfl, directory_named found, rfl, chosen, rfl, rfl⟩
      simp only [bind, Except.bind, chosen, List.partition_eq_filter_filter]
      rfl

variable {other : Located}

theorem answer_injective (h : located.answer = other.answer) : located = other := by
  unfold Located.answer at h
  split at h <;> split at h <;> cases h <;> rfl

/-- The package is the directory of a location, with the import path it has there. -/
theorem Leads.directory (h : roots.Leads tree tags located) :
    ∃ location place names, roots.directory tree location = .ok (place, located.importPath)
      ∧ Describes tree tags place names located := by
  obtain ⟨location, h⟩ := h
  rcases locate_cases roots tree tags location with ⟨fault, failed, other⟩ | ⟨found, eq, described⟩
  · rw [failed, Located.answer] at h
    split at h
    · cases h
    · exact absurd (Except.error.inj h) (other located)
  · obtain rfl := answer_injective (h.symm.trans eq)
    exact ⟨location, described⟩

theorem Leads.describes (h : roots.Leads tree tags located) :
    ∃ place names, Describes tree tags place names located := by
  obtain ⟨location, place, names, -, described⟩ := h.directory
  exact ⟨place, names, described⟩

section

variable (h : roots.locate tree tags location = .ok located ∨
  roots.locate tree tags location = .error (.noSource located))

include h

theorem answer_of_locate : roots.locate tree tags location = located.answer := by
  rcases locate_cases roots tree tags location with ⟨fault, failed, other⟩ | ⟨found, eq, -⟩
  · rcases h with h | h
    · rw [failed] at h
      cases h
    · exact absurd (Except.error.inj (failed.symm.trans h)) (other located)
  · have same : found = located := by
      rw [eq, Located.answer] at h
      split at h <;> rcases h with h | h <;> cases h <;> rfl
    exact same ▸ eq

/-- A package that locating comes to is one that the roots lead to. -/
theorem leads_of_locate : roots.Leads tree tags located :=
  ⟨location, answer_of_locate h⟩

end

namespace Describes

variable {place : Place} {names : List String} {located : Located}

section

variable (h : Describes tree tags place names located)

include h

theorem nodup_names (tidy : tree.WellFormed) : names.Nodup :=
  ((FileTree.nodup_filesIn tidy place).sublist List.filter_sublist).sublist
    (selected_sublist h.selected)

theorem isName (tidy : tree.WellFormed) {name : String} (mem : name ∈ names) : IsName name :=
  FileTree.isName_of_mem_filesIn tidy
    (List.mem_filter.1 ((selected_sublist h.selected).subset mem)).1

theorem mem_of_mem_selection {withTests : Bool} {name : String}
    (mem : name ∈ located.selection withTests) : name ∈ names := by
  rcases List.mem_append.1 mem with mem | mem
  · rw [h.files] at mem
    exact (List.mem_filter.1 mem).1
  · split at mem
    · rw [h.testFiles] at mem
      exact (List.mem_filter.1 mem).1
    · cases mem

theorem nodup_selection (tidy : tree.WellFormed) (withTests : Bool) :
    (located.selection withTests).Nodup := by
  have nodup := h.nodup_names tidy
  rw [Located.selection, h.files, h.testFiles, List.nodup_append]
  refine ⟨nodup.sublist List.filter_sublist, ?_, ?_⟩
  · split
    · exact nodup.sublist List.filter_sublist
    · exact List.nodup_nil
  · rintro name mem other mem' rfl
    split at mem'
    · have source := (List.mem_filter.1 mem).2
      simp [(List.mem_filter.1 mem').2] at source
    · cases mem'

end

end Describes

section

variable (h : roots.Leads tree tags located)

include h

/-- A package with a file to read is found as a package with source. -/
theorem Leads.found_of_selection (ne : located.selection withTests ≠ []) :
    ∃ location, roots.locate tree tags location = .ok located := by
  obtain ⟨location, h⟩ := h
  exact ⟨location, h.trans (Located.answer_of_selection ne)⟩

/-- The directory settles which files are read. -/
theorem Leads.selection_eq (h' : roots.Leads tree tags other) (eq : located.dir = other.dir)
    (withTests : Bool) : located.selection withTests = other.selection withTests := by
  obtain ⟨place, names, described⟩ := h.describes
  obtain ⟨place', names', described'⟩ := h'.describes
  rw [described.dir, described'.dir] at eq
  obtain rfl := Place.path_injective described.named described'.named eq
  obtain rfl := Except.ok.inj (described.selected.symm.trans described'.selected)
  rw [Located.selection, Located.selection, described.files, described'.files,
    described.testFiles, described'.testFiles]

/-- Where nothing is called `vendor`, all that goes under a path is in one directory if the
path leads there, and no other directory has that path of its own. -/
theorem Leads.dir_eq (plain : ∀ entry ∈ tree.entries, "vendor" ∉ entry.1)
    (looked : (roots.directory tree located.package).map (fun found => found.1.path) = .ok dir)
    (listed : ∀ entry ∈ ([], Entry.directory) :: tree.entries,
      ImportPath.canonical ((roots.importPath? tree (Place.path entry.1)).getD
          (Place.path entry.1).text) = located.package →
        Place.path entry.1 = dir) : located.dir = dir := by
  obtain ⟨location, place, names, found, described⟩ := h.directory
  rw [described.dir]
  by_cases here : isLocal location = true
  · rw [Roots.directory, if_pos here] at found
    dsimp only at found
    split at found
    · cases found
    · next there =>
      obtain ⟨rfl, written⟩ := Prod.mk.inj (Except.ok.inj found)
      rw [Located.package, ← written] at listed
      rcases FileTree.directory?_mem there with rfl | entry
      · exact listed _ List.mem_cons_self rfl
      · exact listed _ (List.mem_cons_of_mem _ entry) rfl
  · rw [Located.package, canonical_of_directory plain (eq_false_of_ne_true here) found,
      found] at looked
    exact Except.ok.inj looked

/-- Two directories that are the same are written the same. -/
theorem Leads.dir_eq_of_same (h' : roots.Leads tree tags other)
    (same : located.dir.same other.dir = true) : located.dir = other.dir := by
  obtain ⟨place, names, described⟩ := h.describes
  obtain ⟨place', names', described'⟩ := h'.describes
  rw [described.dir, described'.dir] at same ⊢
  rw [(Place.same_path_iff described.named described'.named).1 same]

/-- Two files that are read for a package have the same path only if they are one. -/
theorem Leads.name_eq_of_same (tidy : tree.WellFormed) {name other : String}
    (mem : name ∈ located.selection withTests) (mem' : other ∈ located.selection withTests)
    (same : (located.dir.join name).same (located.dir.join other) = true) : name = other := by
  obtain ⟨place, names, described⟩ := h.describes
  rw [described.dir] at same
  exact (Place.same_join_iff described.named
    (described.isName tidy (described.mem_of_mem_selection mem))
    (described.isName tidy (described.mem_of_mem_selection mem'))).1 same

end

end Roots

end GoAtlas
