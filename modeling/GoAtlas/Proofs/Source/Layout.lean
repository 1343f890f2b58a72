import GoAtlas.Proofs.Constraint.Words
import GoAtlas.Proofs.Source.CommentGroups
import GoAtlas.Proofs.Text.Lines
import GoAtlas.Source.FileReader
import Mathlib.Data.List.TakeWhile

/-!
# The layout of a source file

A reader of a file takes lines from the front and counts them, so that the number of a line
is its place in the text (`Counts`). Hence a declaration stands on the line that it is said to
stand on, and there is code on that line (`holdsCode_of_parse`).
-/

namespace GoAtlas.Source

open Text
open Constraint (bind_eq_ok)

/-- There is something on the line besides comments. -/
def HoldsCode (lines : List (List Char)) (number : Nat) : Prop :=
  ∃ line, lineAt? lines number = some line ∧ content line ≠ []

/-! ## Lines that are read -/

section Readers

variable {α : Type} {lines : List (List Char)} {number : Nat}
variable {text : List Char} {ahead : Ahead NamedTree lines.length} {declaration : NamedTree}

/-- The lines that were used were counted, from the line after `number` on. -/
def Counts (number : Nat) (lines : List (List Char)) (last : Nat) (rest : List (List Char)) :
    Prop :=
  ∃ used, lines = used ++ rest ∧ last = number + used.length

theorem Counts.refl (number : Nat) (lines : List (List Char)) : Counts number lines number lines :=
  ⟨[], rfl, rfl⟩

theorem Counts.cons {last : Nat} {line : List Char} {rest left : List (List Char)}
    (h : Counts (number + 1) rest last left) : Counts number (line :: rest) last left := by
  obtain ⟨used, rfl, rfl⟩ := h
  refine ⟨line :: used, rfl, ?_⟩
  rw [List.length_cons]
  omega

theorem Counts.trans {between last : Nat} {middle left : List (List Char)}
    (h : Counts number lines between middle) (h' : Counts between middle last left) :
    Counts number lines last left := by
  obtain ⟨used, rfl, rfl⟩ := h
  obtain ⟨more, rfl, rfl⟩ := h'
  refine ⟨used ++ more, (List.append_assoc ..).symm, ?_⟩
  rw [List.length_append]
  omega

theorem counts_readImports {ahead : Ahead (List Import) lines.length}
    (read : readImports number lines = .ok ahead) :
    Counts number lines ahead.number ahead.rest := by
  induction lines generalizing number with
  | nil => cases read
  | cons line rest ih =>
    rw [readImports] at read
    dsimp only at read
    split at read
    · cases read
      exact (Counts.refl _ _).cons
    · split at read
      · obtain ⟨imports, later, done⟩ := bind_eq_ok.1 read
        cases done
        exact (ih later).cons
      · obtain ⟨single, -, read⟩ := bind_eq_ok.1 read
        obtain ⟨imports, later, done⟩ := bind_eq_ok.1 read
        cases done
        exact (ih later).cons

theorem counts_untilBalanced {fault : Fault} {balance : Int}
    {ahead : Ahead (List (List Char)) lines.length}
    (read : untilBalanced fault balance number lines = .ok ahead) :
    Counts number lines ahead.number ahead.rest := by
  induction lines generalizing balance number with
  | nil =>
    rw [untilBalanced] at read
    split at read
    · cases read
      exact .refl _ _
    · cases read
  | cons line rest ih =>
    rw [untilBalanced] at read
    split at read
    · cases read
      exact .refl _ _
    · obtain ⟨more, later, done⟩ := bind_eq_ok.1 read
      cases done
      exact (ih later).cons

theorem counts_readMembers {α : Type} {member : Nat → List Char → Except Fault α}
    {start number : Nat} {lines : List (List Char)} {ahead : Ahead (List α) lines.length}
    (read : readMembers member start number lines = .ok ahead) :
    Counts number lines ahead.number ahead.rest := by
  cases lines with
  | nil =>
    rw [readMembers] at read
    cases read
  | cons line rest =>
    rw [readMembers] at read
    dsimp only at read
    split at read
    · cases read
      exact (Counts.refl _ _).cons
    · split at read
      · obtain ⟨members, later, done⟩ := bind_eq_ok.1 read
        cases done
        exact (counts_readMembers later).cons
      · obtain ⟨more, folds, read⟩ := bind_eq_ok.1 read
        obtain ⟨single, -, read⟩ := bind_eq_ok.1 read
        obtain ⟨members, later, done⟩ := bind_eq_ok.1 read
        cases done
        have shorter := more.most
        exact ((counts_untilBalanced folds).trans (counts_readMembers later)).cons
termination_by lines.length
decreasing_by
  · subst_vars
    exact Nat.lt_succ_of_le shorter
  · subst_vars
    exact Nat.lt_succ_self _

theorem counts_readBody {header : List Char} {ahead : Ahead TypeTree lines.length}
    (read : readBody header number lines = .ok ahead) :
    Counts number lines ahead.number ahead.rest := by
  unfold readBody at read
  dsimp only at read
  split at read
  · obtain ⟨fields, members, done⟩ := bind_eq_ok.1 read
    cases done
    exact counts_readMembers members
  · split at read
    · obtain ⟨elements, members, done⟩ := bind_eq_ok.1 read
      cases done
      exact counts_readMembers members
    · cases read

theorem counts_readDeclaredType {ahead : Ahead TypeTree lines.length}
    (read : readDeclaredType text number lines = .ok ahead) :
    Counts number lines ahead.number ahead.rest := by
  unfold readDeclaredType at read
  split at read
  · exact counts_readBody read
  · obtain ⟨tree, -, done⟩ := bind_eq_ok.1 read
    cases done
    exact .refl _ _

theorem counts_readTypeDeclaration (read : readTypeDeclaration text number lines = .ok ahead) :
    Counts number lines ahead.number ahead.rest ∧ ahead.value.line = number := by
  unfold readTypeDeclaration at read
  split at read
  · cases read
  · next name expression _ =>
    obtain ⟨type, declared, done⟩ := bind_eq_ok.1 read
    cases done
    exact ⟨counts_readDeclaredType declared, rfl⟩

theorem counts_readFuncDeclaration (read : readFuncDeclaration text number lines = .ok ahead) :
    Counts number lines ahead.number ahead.rest ∧ ahead.value.line = number := by
  unfold readFuncDeclaration at read
  dsimp only at read
  obtain ⟨body, passed, read⟩ := bind_eq_ok.1 read
  obtain ⟨header, -, done⟩ := bind_eq_ok.1 read
  cases done
  exact ⟨counts_untilBalanced passed, rfl⟩

theorem eq_ok_of_onLine {answer : Except Fault α} {value : α}
    (read : onLine number answer = .ok value) : answer = .ok value := by
  cases answer with
  | ok found =>
    cases read
    rfl
  | error fault => cases read

theorem line_of_varOf (read : onLine number (varOf number text) = .ok declaration) :
    declaration.line = number := by
  have read := eq_ok_of_onLine read
  unfold varOf at read
  dsimp only at read
  split at read
  · cases read
  · obtain ⟨type, -, done⟩ := bind_eq_ok.1 read
    cases done
    rfl

theorem line_of_constOf (read : onLine number (constOf number text) = .ok declaration) :
    declaration.line = number := by
  have read := eq_ok_of_onLine read
  unfold constOf at read
  split at read
  · cases read
  · dsimp only at read
    split at read
    · cases read
      rfl
    · obtain ⟨type, -, done⟩ := bind_eq_ok.1 read
      cases done
      rfl

/-- An item takes lines from the front, and a declaration that it adds stands on its first
line. -/
theorem counts_readItem {progress : Progress} {ahead : Ahead Progress lines.length}
    (read : progress.readItem text number lines = .ok ahead) :
    Counts number lines ahead.number ahead.rest ∧
      ∀ tree ∈ ahead.value.tree.declarations,
        tree ∈ progress.tree.declarations ∨ tree.line = number := by
  have added : ∀ {declaration tree : NamedTree}, declaration.line = number →
      tree ∈ (progress.addDeclaration declaration).tree.declarations →
        tree ∈ progress.tree.declarations ∨ tree.line = number := by
    intro declaration tree line mem
    rcases List.mem_append.1 mem with mem | mem
    · exact .inl mem
    · rw [List.mem_singleton.1 mem]
      exact .inr line
  unfold Progress.readItem at read
  dsimp only at read
  split at read
  · cases read
    exact ⟨.refl _ _, fun _ => .inl⟩
  · cases read
  · split at read
    · obtain ⟨imports, passed, done⟩ := bind_eq_ok.1 read
      cases done
      exact ⟨counts_readImports passed, fun _ => .inl⟩
    · obtain ⟨single, -, done⟩ := bind_eq_ok.1 read
      cases done
      exact ⟨.refl _ _, fun _ => .inl⟩
  · obtain ⟨declaration, passed, done⟩ := bind_eq_ok.1 read
    cases done
    obtain ⟨counts, line⟩ := counts_readTypeDeclaration passed
    exact ⟨counts, fun _ => added line⟩
  · obtain ⟨declaration, passed, done⟩ := bind_eq_ok.1 read
    cases done
    obtain ⟨counts, line⟩ := counts_readFuncDeclaration passed
    exact ⟨counts, fun _ => added line⟩
  · obtain ⟨declaration, one, done⟩ := bind_eq_ok.1 read
    cases done
    exact ⟨.refl _ _, fun _ => added (line_of_varOf one)⟩
  · obtain ⟨declaration, one, done⟩ := bind_eq_ok.1 read
    cases done
    exact ⟨.refl _ _, fun _ => added (line_of_constOf one)⟩
  · cases read

/-- Every declaration that is read stands on a line with code. -/
theorem holdsCode_readLines {all lines : List (List Char)} {number : Nat}
    {progress after : Progress}
    (read : progress.readLines number lines = .ok after) (reached : Counts 0 all number lines)
    (before : ∀ tree ∈ progress.tree.declarations, HoldsCode all tree.line) :
    ∀ tree ∈ after.tree.declarations, HoldsCode all tree.line := by
  cases lines with
  | nil =>
    rw [Progress.readLines] at read
    cases read
    exact before
  | cons line rest =>
    have here : lineAt? all (number + 1) = some line := by
      obtain ⟨used, rfl, rfl⟩ := reached
      simp [lineAt?]
    have next : Counts 0 all (number + 1) rest := reached.trans (Counts.refl _ _).cons
    rw [Progress.readLines] at read
    dsimp only at read
    split at read
    · exact holdsCode_readLines read next before
    · next code =>
      obtain ⟨ahead, item, read⟩ := bind_eq_ok.1 read
      obtain ⟨counts, added⟩ := counts_readItem item
      have shorter := ahead.most
      apply holdsCode_readLines read (next.trans counts)
      intro tree mem
      rcases added tree mem with old | new
      · exact before tree old
      · rw [new]
        refine ⟨line, here, fun empty => code ?_⟩
        rw [empty]
        rfl
termination_by lines.length
decreasing_by
  · subst_vars
    exact Nat.lt_succ_of_le shorter
  · subst_vars
    exact Nat.lt_succ_self _

theorem holdsCode_of_parse {path : FilePath} {text : String} {file : SourceFile SourceTree}
    (read : parse path text = .ok file) :
    ∀ tree ∈ file.unit.declarations, HoldsCode (Text.lines text.toList) tree.line := by
  obtain ⟨-, -, progress, whole, unit⟩ := readLines_of_parse read
  rw [unit]
  exact holdsCode_readLines whole (.refl _ _) (List.forall_mem_nil _)

end Readers

/-! ## Blank lines -/

theorem trimEnd_eq_nil_iff {text : List Char} :
    trimEnd text = [] ↔ ∀ c ∈ text, isBlank c = true := by
  rw [trimEnd, List.reverse_eq_nil_iff, List.dropWhile_eq_nil_iff]
  simp only [List.mem_reverse]

theorem trim_eq_nil_iff {text : List Char} : trim text = [] ↔ ∀ c ∈ text, isBlank c = true := by
  rw [trim, trimEnd_eq_nil_iff]
  constructor
  · intro blank
    rw [← List.dropWhile_eq_nil_iff]
    by_contra other
    -- what is left at the start does not begin with a blank
    have head := List.head_dropWhile_not isBlank other
    rw [blank _ (List.head_mem other)] at head
    cases head
  · intro blank c mem
    exact blank c (List.dropWhile_subset _ mem)

theorem beforeComment_subset (state : Quoting) (text : List Char) :
    beforeComment state text ⊆ text := by
  induction text generalizing state with
  | nil => exact List.Subset.refl _
  | cons c rest ih =>
    rw [beforeComment]
    split
    · exact List.nil_subset _
    · exact List.cons_subset_cons c (ih _)

/-- There is nothing on a blank line. -/
theorem content_of_blank {line : List Char} (blank : trim line = []) : content line = [] := by
  rw [trim_eq_nil_iff] at blank
  rw [content, stripComment, trim_eq_nil_iff]
  intro c mem
  have inside := List.dropWhile_subset _ (List.mem_reverse.1 mem)
  exact blank c (beforeComment_subset _ line (List.mem_reverse.1 inside))

/-- Where there are only blanks before a comment, nothing else is on the line. -/
theorem blank_or_slashes {line : List Char}
    (blank : ∀ c ∈ beforeComment .outside line, isBlank c = true) :
    (∀ c ∈ line, isBlank c = true) ∨ ∃ rest, trimStart line = '/' :: '/' :: rest := by
  induction line with
  | nil => exact .inl (List.forall_mem_nil _)
  | cons c rest ih =>
    rw [beforeComment] at blank
    split at blank
    · next start =>
      obtain ⟨-, rfl, second⟩ := start
      obtain ⟨others, rfl⟩ := List.head?_eq_some_iff.1 second
      exact .inr ⟨others, rfl⟩
    · obtain ⟨first, later⟩ := List.forall_mem_cons.1 blank
      have outside : Quoting.step .outside c = .outside := by
        refine if_neg fun quote => ?_
        simp only [Quoting.isQuote, Bool.or_eq_true, beq_iff_eq] at quote
        rcases quote with (rfl | rfl) | rfl <;> cases first
      rw [outside] at later
      rw [trimStart, List.dropWhile_cons_of_pos first]
      exact (ih later).imp_left fun blank => List.forall_mem_cons.2 ⟨first, blank⟩

/-- A line without code is blank or a comment line. -/
theorem blank_of_content {line : List Char} (code : isCommentLine (trim line) = false)
    (empty : content line = []) : trim line = [] := by
  have none : ∀ c ∈ beforeComment .outside line, isBlank c = true := by
    rw [content, trim_eq_nil_iff, ← trimEnd_eq_nil_iff, stripComment, trimEnd_trimEnd,
      trimEnd_eq_nil_iff] at empty
    exact empty
  rcases blank_or_slashes none with blank | ⟨rest, start⟩
  · exact trim_eq_nil_iff.2 blank
  · rw [isCommentLine, trim, start] at code
    have slashes := @trimEnd_append_visible '/' ['/'] rest (by decide)
    rw [List.singleton_append] at slashes
    rw [slashes] at code
    cases code

end GoAtlas.Source
