import GoAtlas.Proofs.Locator.Children

/-!
# Packages that are located by their own import path

A package that is found at a directory has an import path: its names below the first search
root that it is below of, or the path of the directory if it is below none. That path leads
to a package again. Below no root it leads to the same one. Below some root it leads to the
first root that has a directory of that path, and this need not be the root that the path is
taken from. So the package is found again exactly if the first such directory is its own
(`relocates_iff`).
-/

namespace GoAtlas.Roots

variable {roots : Roots} {tree : FileTree} {tags : NameSet} {location path : String}
  {place : Place} {names : List String} {located : Located}

/-- The first search root with a directory of that path has the one given. -/
def FirstIs (roots : Roots) (tree : FileTree) (path : String) (dir : FilePath) : Prop :=
  ∀ before root after place, roots.searchPaths = before ++ root :: after →
    (∀ other ∈ before, tree.directory? (other.join path) = none) →
      tree.directory? (root.join path) = some place → place.path = dir

theorem firstIs_iff (looked : isLocal path = false)
    (found : roots.directory tree path = .ok (place, path)) {dir : FilePath} :
    roots.FirstIs tree path dir ↔ place.path = dir := by
  rw [directory, looked, if_neg Bool.false_ne_true] at found
  split at found
  next first search =>
    obtain ⟨rfl, -⟩ := Prod.mk.inj (Except.ok.inj found)
    constructor
    · intro all
      obtain ⟨before, root, after, split, here, earlier⟩ := List.findSome?_eq_some_iff.1 search
      exact all before root after first split earlier here
    · rintro rfl before root after other split earlier here
      have again := List.findSome?_eq_some_iff.2 ⟨before, root, after, split, here, earlier⟩
      rw [Option.some.inj (again.symm.trans search)]
  next => cases found

/-- The path of a package with a file that takes part is not too long. -/
theorem Describes.admissible (described : Describes tree tags place names located)
    (tidy : tree.WellFormed) (source : located.hasSource = true) : place.path.Admissible := by
  have chosen := described.selected
  cases sources : (tree.filesIn place).filter isSourceName with
  | nil =>
    rw [sources] at chosen
    cases chosen
    rw [Located.hasSource, described.files, described.testFiles] at source
    cases source
  | cons first rest =>
    have mem : first ∈ (tree.filesIn place).filter isSourceName := by simp [sources]
    rw [sources, selected_cons] at chosen
    split at chosen
    · cases chosen
    · next read =>
      exact FileTree.admissible_of_read
        (FileTree.isName_of_mem_filesIn tidy (List.mem_filter.1 mem).1) read

/-- A package that is found has source, and is the one of the directory at the location. -/
theorem described_of_locate (found : roots.locate tree tags location = .ok located) :
    located.hasSource = true ∧ ∃ place names,
      roots.directory tree location = .ok (place, located.importPath) ∧
        Describes tree tags place names located := by
  have answers := (answer_of_locate (.inl found)).symm.trans found
  rcases locate_cases roots tree tags location with ⟨fault, failed, -⟩ | ⟨other, eq, own⟩
  · cases failed.symm.trans found
  · obtain rfl := answer_injective ((answers.trans found.symm).trans eq)
    refine ⟨?_, own⟩
    unfold Located.answer at answers
    split at answers
    · assumption
    · cases answers

/-- Over a closed tree, for a package that is found at a directory: its import path, unless it
is too long to look for, leads to the same package exactly if no search root comes first with
another directory of that path. All names in a tree are texts, so the import path spells every
name of the directory; a name in other bytes would be lost in it. -/
theorem relocates_iff (closed : tree.Closed)
    (rooted : ∀ root ∈ roots.searchPaths, root.text ≠ "") (looked : isLocal location = true)
    (found : roots.locate tree tags location = .ok located)
    (short : ∀ root ∈ roots.searchPaths, (root.join located.importPath).Admissible) :
    roots.locate tree tags located.importPath = .ok located ↔
      roots.FirstIs tree located.importPath located.dir := by
  obtain ⟨source, place, names, led, described⟩ := described_of_locate found
  have again (back : roots.directory tree located.importPath = .ok (place, located.importPath)) :
      roots.locate tree tags located.importPath = .ok located := by
    rw [← found, locate, locate, led, back]
  obtain ⟨path, there⟩ := directory_eq_ok led
  rw [pathAt, if_pos looked] at path
  cases own : roots.importPath? tree place.path with
  | none =>
    -- below no root the import path is that of the directory
    rw [own, Option.getD_none] at path
    have text : (⟨located.importPath⟩ : FilePath) = place.path := congrArg FilePath.mk path
    have parts := Place.components_path described.named
    have admissible := described.admissible closed.toWellFormed source
    rw [← text] at parts
    refine iff_of_true (again ?_) fun before root after other _ _ here => ?_
    · rw [directory_of_components closed parts there admissible, pathAt, own, Option.getD_none,
        ← path, ite_self]
    · rw [FilePath.join_absolute (FilePath.isAbsolute_of_components parts), text,
        closed.directory?_path there admissible] at here
      cases here
      exact described.dir.symm
  | some known =>
    -- below some root a directory of that path is found, if not this one
    rw [own, Option.getD_some] at path
    obtain ⟨root, mem, above, onward, follows, rfl, -, rfl⟩ :=
      exists_root_of_importPath? closed rooted there own
    have named : Place.Named onward := fun name mem =>
      described.named name (List.mem_append_right _ mem)
    have plain : isLocal located.importPath = false := path ▸ Place.isLocal_intercalate named
    have parts : (root.join located.importPath).components =
        root.components ++ onward.map Component.name := by
      rw [FilePath.components_join_of_not_isLocal (rooted root mem) plain, path,
        Place.components_intercalate named]
    obtain ⟨first, back⟩ := directory_of_root plain mem
      (closed.directory?_below (rooted root mem) follows parts there (short root mem))
      (above ++ onward)
    rw [pathAt, plain, if_neg Bool.false_ne_true] at back
    rw [firstIs_iff plain back]
    constructor
    · intro found'
      obtain ⟨-, other, names, led', described'⟩ := described_of_locate found'
      rw [described'.dir, (Prod.mk.inj (Except.ok.inj (back.symm.trans led'))).1]
    · intro same
      rw [Place.path_injective (directory_named back) described.named (same.trans described.dir)]
        at back
      exact again back

/-! ## Two roots -/

@[irreducible] def twinTree : FileTree :=
  ((({} : FileTree).put ⟨"/r1/p/a.go"⟩ (.text "package p\n")).put
    ⟨"/r2/p/b.go"⟩ (.text "package p\n")).put ⟨"/r2/q/c.go"⟩ (.text "package q\n")

def twinRoots : Roots :=
  { searchPaths := [⟨"/r1"⟩, ⟨"/r2"⟩], workingDir := ⟨"/r2"⟩ }

theorem closed_twinTree : twinTree.Closed where
  toWellFormed := by
    unfold twinTree
    exact ((FileTree.wellFormed_empty.put _ _).put _ _).put _ _
  parents := by decide +kernel
  short := by decide +kernel

def twinPackage : Located :=
  { importPath := "q", dir := ⟨"/r2/q"⟩, files := ["c.go"], testFiles := [] }

/-- The second root has a package that the first one has not. -/
theorem relocates_iff_twin :
    twinRoots.locate twinTree {} "./q" = .ok twinPackage ∧
      twinRoots.locate twinTree {} "q" = .ok twinPackage ∧
      twinRoots.FirstIs twinTree "q" ⟨"/r2/q"⟩ := by
  have found : twinRoots.locate twinTree {} "./q" = .ok twinPackage := by decide +kernel
  have again : twinRoots.locate twinTree {} "q" = .ok twinPackage := by decide +kernel
  have short : ∀ root ∈ twinRoots.searchPaths, (root.join "q").Admissible := by
    intro root mem
    rcases List.mem_pair.1 mem with rfl | rfl
    · exact ⟨by decide +kernel, by decide +kernel⟩
    · exact ⟨by decide +kernel, by decide +kernel⟩
  exact ⟨found, again, (relocates_iff closed_twinTree (by decide) (by decide) found short).1 again⟩

/-- Both roots have a package of that path: the second one is not found by it. -/
theorem relocated_in_first :
    twinRoots.locate twinTree {} "./p" =
        .ok { importPath := "p", dir := ⟨"/r2/p"⟩, files := ["b.go"], testFiles := [] } ∧
      twinRoots.locate twinTree {} "p" =
        .ok { importPath := "p", dir := ⟨"/r1/p"⟩, files := ["a.go"], testFiles := [] } := by
  decide +kernel

end GoAtlas.Roots
