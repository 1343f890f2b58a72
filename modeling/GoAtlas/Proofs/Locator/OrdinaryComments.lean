import GoAtlas.Proofs.Constraint.Header
import GoAtlas.Proofs.Locator

/-!
# Ordinary comments

A comment that is put among the lines of a header and starts with neither of the marks of a
constraint does not change the constraint of the file. So the file takes part under the same
tags, and whatever is located in a tree with the file is located as before
(`ordinary_comment`).

A constraint line has a blank after its mark, or nothing (`isConstraintLine`). Where a longer
word starts with the mark, the line is an ordinary comment but is read as a constraint
(`gated_by_comment`).
-/

namespace GoAtlas

open Text Constraint

/-! ## Trees that differ in the text of files -/

namespace FileTree

/-- At every place the trees have the same entry, or files with a text each. -/
structure SameShape (tree other : FileTree) : Prop where
  current : tree.current = other.current
  entries : ∀ place, tree.entryAt? place = other.entryAt? place ∨
    ∃ text edited, tree.entryAt? place = some (.text text) ∧
      other.entryAt? place = some (.text edited)

variable {tree other : FileTree}

section

variable (h : SameShape tree other)

include h

theorem SameShape.directory_iff (place : Place) :
    tree.entryAt? place = some .directory ↔ other.entryAt? place = some .directory := by
  obtain same | ⟨text, edited, old, new⟩ := h.entries place
  · rw [same]
  · simp [old, new]

theorem SameShape.followPieces {ending : Ending}
    {onLink : Place → List String → Except ReadFault Place} (place : Place) (pieces : List String) :
    tree.followPieces ending onLink place pieces =
      other.followPieces ending onLink place pieces := by
  induction pieces generalizing place with
  | nil => rfl
  | cons piece rest ih =>
    rw [FileTree.followPieces, FileTree.followPieces]
    simp only [ne_eq, h.directory_iff place, ih]
    obtain same | ⟨text, edited, old, new⟩ := h.entries (place ++ [piece])
    · rw [same]
    · rw [old, new]

theorem SameShape.follow (ending : Ending) (links : Nat) :
    tree.follow ending links = other.follow ending links := by
  induction links with
  | zero =>
    funext place pieces
    exact h.followPieces place pieces
  | succ links ih =>
    funext place pieces
    rw [FileTree.follow, FileTree.follow, ih, h.followPieces]

theorem SameShape.resolve (path : FilePath) : tree.resolve path = other.resolve path := by
  rw [FileTree.resolve, FileTree.resolve, outset, outset, h.current, h.follow]

theorem SameShape.directory? (path : FilePath) : tree.directory? path = other.directory? path := by
  rw [FileTree.directory?, FileTree.directory?, h.resolve]
  simp only [h.directory_iff]

theorem SameShape.canonical? (path : FilePath) : tree.canonical? path = other.canonical? path := by
  rw [FileTree.canonical?, FileTree.canonical?, outset, outset, h.current, h.follow]

theorem SameShape.directory (roots : Roots) (location : String) :
    roots.directory tree location = roots.directory other location := by
  simp only [Roots.directory, Roots.importPath?, h.directory?, h.canonical?]

end

variable {place : Place} {text edited : String}

/-- Whichever text a file is written with, the rest of the tree is the same. -/
theorem entryAt?_set (tree : FileTree) (place : Place) (text edited : String) (other : Place) :
    (tree.set place (.text text)).entryAt? other = (tree.set place (.text edited)).entryAt? other ∨
      (tree.set place (.text text)).entryAt? other = some (.text text) ∧
        (tree.set place (.text edited)).entryAt? other = some (.text edited) := by
  by_cases root : other = []
  · exact .inl (by rw [entryAt?, entryAt?, if_pos root, if_pos root])
  · rw [entryAt?, entryAt?, if_neg root, if_neg root, set, set, List.lookup_cons, List.lookup_cons]
    by_cases here : other == place
    · exact .inr (by simp [here])
    · exact .inl (by simp [here])

theorem sameShape_set :
    SameShape (tree.set place (.text text)) (tree.set place (.text edited)) := by
  refine ⟨rfl, fun other => ?_⟩
  obtain same | written := entryAt?_set tree place text edited other
  · exact .inl same
  · exact .inr ⟨text, edited, written⟩

theorem filesIn_set (dir : Place) :
    (tree.set place (.text text)).filesIn dir = (tree.set place (.text edited)).filesIn dir := by
  simp only [filesIn, set, List.filterMap_cons, Entry.isFile]

theorem read_set (tree : FileTree) (place : Place) (text edited : String) (path : FilePath) :
    (tree.set place (.text text)).read path = (tree.set place (.text edited)).read path ∨
      (tree.set place (.text text)).read path = .ok text ∧
        (tree.set place (.text edited)).read path = .ok edited := by
  rw [read, read, sameShape_set.resolve path]
  cases (tree.set place (.text edited)).resolve path with
  | error fault => exact .inl rfl
  | ok found =>
    simp only [bind, Except.bind]
    obtain same | ⟨old, new⟩ := entryAt?_set tree place text edited found
    · exact .inl (by rw [same])
    · exact .inr (by rw [old, new]; exact ⟨rfl, rfl⟩)

end FileTree

namespace Roots

variable {tree : FileTree} {tags : NameSet} {place : Place} {text edited : String}

theorem selected_set (same : takesPart tags edited = takesPart tags text) (dir : FilePath)
    (names : List String) :
    selected (tree.set place (.text edited)) tags dir names =
      selected (tree.set place (.text text)) tags dir names := by
  induction names with
  | nil => rfl
  | cons name rest ih =>
    rw [selected_cons, selected_cons, ih]
    obtain old | ⟨new, old⟩ := FileTree.read_set tree place edited text (dir.join name)
    · rw [old]
    · rw [new, old]
      simp only [same]

/-- What is located does not depend on how a file is written, as long as it takes part under the
same tags. -/
theorem locate_set (same : takesPart tags edited = takesPart tags text) (roots : Roots)
    (location : String) :
    roots.locate (tree.set place (.text edited)) tags location =
      roots.locate (tree.set place (.text text)) tags location := by
  have shape : FileTree.SameShape (tree.set place (.text edited)) (tree.set place (.text text)) :=
    FileTree.sameShape_set
  have files (dir : Place) :
      (tree.set place (.text edited)).filesIn dir = (tree.set place (.text text)).filesIn dir :=
    FileTree.filesIn_set dir
  simp only [locate, shape.directory, files, selected_set same]

end Roots

/-! ## Comments in a header -/

/-- The marks of a constraint line. -/
def constraintMarks : List String :=
  ["//go:build", "// +build"]

/-- The line has one of the marks, with a blank or nothing after it. -/
def isConstraintLine (line : List Char) : Bool :=
  constraintMarks.any fun mark =>
    (dropStart? mark (trim line)).any fun rest => rest.head?.all isBlank

/-- The line starts with one of the marks. -/
def startsWithMark (line : List Char) : Bool :=
  constraintMarks.any fun mark => startsWith mark (trim line)

/-- The second text is the first one with a comment line more among the lines of its header. -/
structure Inserts (line : List Char) (text edited : String) : Prop where
  comment : startsWith "//" (trim line) = true
  inHeader : ∃ before after, lines text.toList = before ++ after ∧
    lines edited.toList = before ++ line :: after ∧ ∀ other ∈ before, isHeaderLine other = true

/-- A comment that starts with neither mark gates no file. -/
theorem ordinary_comment {line : List Char} {text edited : String}
    (inserts : Inserts line text edited) (ordinary : startsWithMark line = false) :
    ofFile? edited = ofFile? text ∧ (∀ tags, takesPart tags edited = takesPart tags text) ∧
      ∀ (roots : Roots) (tree : FileTree) (place : Place) (tags : NameSet) (location : String),
        roots.locate (tree.set place (.text edited)) tags location =
          roots.locate (tree.set place (.text text)) tags location := by
  obtain ⟨comment, before, after, original, inserted, inHeader⟩ := inserts
  simp only [startsWithMark, constraintMarks, List.any_cons, List.any_nil, Bool.or_false,
    Bool.or_eq_false_iff] at ordinary
  have same : ofFile? edited = ofFile? text :=
    ofFile?_insert original inserted inHeader comment ordinary.1 ordinary.2
  have part : ∀ tags, takesPart tags edited = takesPart tags text := by
    intro tags
    rw [takesPart, takesPart, same]
  refine ⟨same, part, ?_⟩
  intro roots tree place tags location
  exact Roots.locate_set (part tags) roots location

/-- A comment between two others, one of them a constraint. The marks within it do not count. -/
theorem ordinary_comment_between :
    let line := "// See //go:build and // +build.".toList
    let text := "// A file.\n//go:build linux\n\npackage p\n"
    let edited := "// A file.\n// See //go:build and // +build.\n//go:build linux\n\npackage p\n"
    Inserts line text edited ∧ startsWithMark line = false ∧ ofFile? edited = ofFile? text := by
  intro line text edited
  have inserts : Inserts line text edited := by
    refine ⟨by decide +kernel, ["// A file.".toList],
      ["//go:build linux".toList, [], "package p".toList], by decide +kernel, by decide +kernel, ?_⟩
    exact List.forall_mem_singleton.2 (by decide +kernel)
  have ordinary : startsWithMark line = false := by decide +kernel
  exact ⟨inserts, ordinary, (ordinary_comment inserts ordinary).1⟩

/-- A comment whose first word only starts with a mark is read as a constraint: the file no longer
takes part. -/
theorem gated_by_comment :
    let line := "//go:buildignore".toList
    let text := "package p\n"
    let edited := "//go:buildignore\npackage p\n"
    Inserts line text edited ∧ isConstraintLine line = false ∧ ofFile? text = none ∧
      ofFile? edited = some (.ok (.tag "ignore")) ∧ takesPart (defaultTags {}) text = true ∧
        takesPart (defaultTags {}) edited = false := by
  refine ⟨⟨by decide +kernel, [], ["package p".toList], by decide +kernel, by decide +kernel,
    List.forall_mem_nil _⟩, ?_⟩
  decide +kernel

end GoAtlas
