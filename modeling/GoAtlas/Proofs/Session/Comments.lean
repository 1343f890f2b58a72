import GoAtlas.Proofs.FileTree
import GoAtlas.Proofs.Session.Lasting
import GoAtlas.Proofs.Source.CommentGroups
import GoAtlas.Source.Frontend

/-!
# The comments of a session

The comments of all files are kept in one index, by the components of the path of their
file and by the line they end on. Two paths with the same components may both have been
read, for different packages, and the later one hides the comments of the earlier one.
Over one tree this makes no difference: both lead to the same text, and the comments of a
file depend on nothing else. So each file that was read finds its own comments in the
index (`Commented`).
-/

namespace GoAtlas

/-! ## The groups of a file -/

/-- The text of the comment group of a file that ends right above a line. -/
def SourceFile.textAbove {U : Type} (file : SourceFile U) (line : Nat) : List String :=
  ((file.comments.find? fun group => group.stop + 1 == line).map CommentGroup.textLines).getD []

/-! ## The index -/

namespace CommentIndex

/-- What is found for a path is found for any path with the same components. -/
theorem endingAt?_of_same (index : CommentIndex) {path other : FilePath}
    (same : path.components = other.components) (line : Nat) :
    index.endingAt? path line = index.endingAt? other line := by
  rw [endingAt?, same, endingAt?]

end CommentIndex

namespace SourceIndex

variable {U : Type} {index : SourceIndex U} {package : String} {file : SourceFile U}

theorem mem_filesOf_insert (fresh : index.containsFile package file.path = false)
    (other : String) (found : SourceFile U) :
    found ∈ (index.insert package file).filesOf other ↔
      found ∈ index.filesOf other ∨ other = package ∧ found = file := by
  rw [filesOf_insert fresh]
  by_cases here : other = package
  · simp [here]
  · simp [here]

end SourceIndex

/-! ## Files of one tree -/

namespace Environment

variable {env : Environment SourceTree} {path : FilePath} {file : SourceFile SourceTree}

/-- The comments of a file are those of the text that is read at its path. -/
theorem comments_of_file? (front : env.frontend = Source.frontend)
    (there : env.file? path = some file) :
    ∃ text, env.tree.read path = .ok text ∧
      file.comments = Source.commentGroups (Text.lines text.toList) := by
  obtain ⟨text, found, read, parsed, rfl⟩ := read_of_file? there
  rw [front] at parsed
  exact ⟨text, read, (Source.readLines_of_parse (Source.parse_of_frontend parsed)).1⟩

theorem increasing_of_file? (front : env.frontend = Source.frontend)
    (there : env.file? path = some file) : file.comments.Pairwise fun a b => a.stop < b.stop := by
  obtain ⟨text, -, comments⟩ := comments_of_file? front there
  rw [comments]
  exact Source.commentGroups_increasing _

/-- Files with the same components have the same comments. -/
theorem comments_of_same (front : env.frontend = Source.frontend) {other : FilePath}
    (same : path.components = other.components) {found : SourceFile SourceTree}
    (there : env.file? path = some file) (there' : env.file? other = some found) :
    file.comments = found.comments := by
  obtain ⟨text, read, comments⟩ := comments_of_file? front there
  obtain ⟨text', read', comments'⟩ := comments_of_file? front there'
  cases FileTree.read_of_same same read read'
  rw [comments, comments']

end Environment

/-! ## The invariant -/

namespace Session

variable {env : Environment SourceTree} {session : Session SourceTree}

/-- The files of a session are those of the tree, and the index holds their comments. -/
structure Commented (env : Environment SourceTree) (session : Session SourceTree) : Prop where
  read : ∀ package, ∀ file ∈ session.sources.filesOf package, env.file? file.path = some file
  ending : ∀ package, ∀ file ∈ session.sources.filesOf package, ∀ line,
    session.sources.comments.endingAt? file.path line = file.groupAt? line
  origin : ∀ path line group, session.sources.comments.endingAt? path line = some group →
    ∃ package, ∃ file ∈ session.sources.filesOf package, path.components = file.path.components

theorem commented_start (env : Environment SourceTree) (config : Config) :
    Commented env (start config) where
  read _ _ mem := nomatch mem
  ending _ _ mem := nomatch mem
  origin _ _ _ there := nomatch there

variable {file : SourceFile SourceTree}

theorem Commented.addFile (h : Commented env session) (front : env.frontend = Source.frontend)
    (package : String) (there : env.file? file.path = some file) :
    Commented env (session.addFile package file) := by
  cases fresh : session.sources.containsFile package file.path with
  | true =>
    have same : session.sources.insert package file = session.sources := by
      rw [SourceIndex.insert, if_pos fresh]
    rw [Session.addFile, same]
    exact h
  | false =>
    have member := SourceIndex.mem_filesOf_insert fresh
    have index := SourceIndex.endingAt?_insert fresh (Environment.increasing_of_file? front there)
    refine ⟨fun other found mem => ?_, fun other found mem line => ?_,
      fun path line group ends => ?_⟩
    · rcases (member other found).1 mem with mem | ⟨-, rfl⟩
      · exact h.read other found mem
      · exact there
    · -- whatever was found under these components has the comments of this file
      have agree : ∀ package, ∀ old ∈ session.sources.filesOf package,
          old.path.components = file.path.components → old.groupAt? line = file.groupAt? line := by
        intro package old mem same
        have comments := Environment.comments_of_same front same (h.read package old mem) there
        rw [SourceFile.groupAt?, comments, SourceFile.groupAt?]
      apply (index found.path line).trans
      rcases (member other found).1 mem with mem | ⟨-, rfl⟩
      · rw [h.ending other found mem]
        split
        · next same => rw [agree other found mem same, Option.or_self]
        · rfl
      · rw [if_pos rfl]
        cases before : session.sources.comments.endingAt? found.path line with
        | none => exact Option.or_none
        | some group =>
          obtain ⟨package, old, mem, same⟩ := h.origin found.path line group before
          rw [CommentIndex.endingAt?_of_same _ same, h.ending package old mem,
            agree package old mem same.symm] at before
          rw [before, Option.or_self]
    · by_cases same : path.components = file.path.components
      · exact ⟨package, file, (member package file).2 (.inr ⟨rfl, rfl⟩), same⟩
      · have ends := (index path line).symm.trans ends
        rw [if_neg same] at ends
        obtain ⟨other, old, mem, same⟩ := h.origin path line group ends
        exact ⟨other, old, (member other old).2 (.inl mem), same⟩

theorem lasting_commented (front : env.frontend = Source.frontend) :
    Lasting env (Commented env) where
  remember _ _ _ h _ := ⟨h.read, h.ending, h.origin⟩
  settle _ _ _ h _ := ⟨h.read, h.ending, h.origin⟩
  record _ _ h := ⟨h.read, h.ending, h.origin⟩
  addFile _ package _ h there := h.addFile front package there
  undecided _ _ _ h _ := ⟨h.read, h.ending, h.origin⟩
  conclude _ _ _ _ h := ⟨h.read, h.ending, h.origin⟩
  request _ _ h := ⟨h.read, h.ending, h.origin⟩
  addTags _ _ h := ⟨h.read, h.ending, h.origin⟩

variable {package : String}

/-- What ends a number of lines above a line of a file is what the file says. -/
theorem Commented.prior? (h : Commented env session)
    (mem : file ∈ session.sources.filesOf package) (line above : Nat) :
    session.sources.comments.prior? { file := file.path, line } above =
      file.comments.find? fun group => group.stop + above == line := by
  unfold CommentIndex.prior?
  dsimp only
  split
  · next within =>
    rw [h.ending package file mem, SourceFile.groupAt?]
    congr 1
    funext group
    rw [Bool.eq_iff_iff, beq_iff_eq, beq_iff_eq]
    omega
  · next short =>
    refine (List.find?_eq_none.2 fun group _ => ?_).symm
    rw [beq_iff_eq]
    omega

/-- What stands above a line of a file is what the file says. -/
theorem Commented.docLines (h : Commented env session)
    (mem : file ∈ session.sources.filesOf package) (line : Nat) :
    session.sources.comments.docLines (some { file := file.path, line }) = file.textAbove line := by
  unfold CommentIndex.docLines SourceFile.textAbove
  rw [Option.bind_some, h.prior? mem]
  cases file.comments.find? fun group => group.stop + 1 == line <;> rfl

end Session

end GoAtlas
