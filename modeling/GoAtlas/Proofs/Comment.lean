import Mathlib.Data.List.Chain
import Mathlib.Data.List.DropRight
import GoAtlas.Comment
import GoAtlas.Proofs.FileTree

/-!
# The text of comments is a normal form

The lines of a group's text start and end with something, have at most one blank line in a
row and no blank at an end (`IsNormal`). Lines of this form, written as line comments again,
are read back as they are: after the space that the mark ends with nothing is taken for a
directive (`textLines_commented`).
-/

namespace GoAtlas.CommentGroup

open Text

variable {line : List Char} {lines : List (List Char)} {afterBlank : Bool}

/-! ## Blank lines -/

/-- The lines have at most one blank line in a row, and none at the start where `afterBlank`
tells that one comes before. -/
structure Spaced (afterBlank : Bool) (lines : List (List Char)) : Prop where
  apart : lines.IsChain fun line next => line ≠ [] ∨ next ≠ []
  start : afterBlank = true → ∀ first ∈ lines.head?, first ≠ []

theorem spaced_collapse (afterBlank : Bool) (lines : List (List Char)) :
    Spaced afterBlank (collapse afterBlank lines) := by
  induction lines generalizing afterBlank with
  | nil => exact ⟨.nil, fun _ _ there => by cases there⟩
  | cons line rest ih =>
    unfold collapse
    split
    · split
      · next after => exact after ▸ ih true
      · next other =>
        exact ⟨(ih true).apart.cons fun next there => .inr ((ih true).start rfl next there),
          fun after => absurd after other⟩
    · next visible =>
      have visible : line ≠ [] := by simpa using visible
      refine ⟨(ih false).apart.cons fun _ _ => .inl visible, fun _ first there => ?_⟩
      rwa [← Option.some.inj there]

/-- Lines that are spaced already are left as they are. -/
theorem Spaced.collapse_eq (h : Spaced afterBlank lines) : collapse afterBlank lines = lines := by
  induction lines generalizing afterBlank with
  | nil => rfl
  | cons line rest ih =>
    have next := h.apart.rel_head?
    unfold collapse
    by_cases blank : line = []
    · subst blank
      have other : afterBlank ≠ true := fun after => h.start after [] rfl rfl
      have rest : Spaced true rest :=
        ⟨h.apart.tail, fun _ first there => (next there).resolve_left fun ne => ne rfl⟩
      rw [if_pos (List.isEmpty_nil), if_neg other, ih rest]
    · rw [if_neg (by simpa using blank), ih ⟨h.apart.tail, fun after => by cases after⟩]

theorem mem_of_mem_collapse (mem : line ∈ collapse afterBlank lines) : line ∈ lines := by
  induction lines generalizing afterBlank with
  | nil => exact mem
  | cons first rest ih =>
    unfold collapse at mem
    split at mem
    · split at mem
      · exact List.mem_cons_of_mem _ (ih mem)
      · exact List.mem_cons.2 ((List.mem_cons.1 mem).imp_right ih)
    · exact List.mem_cons.2 ((List.mem_cons.1 mem).imp_right ih)

/-! ## Lines of a text -/

/-- The line is one line, without blanks at its end. -/
structure IsLine (line : List Char) : Prop where
  whole : '\n' ∉ line
  trimmed : ∀ last ∈ line.getLast?, isBlank last = false

theorem isLine_of_mem_rawLines {group : CommentGroup} (mem : line ∈ group.rawLines) :
    IsLine line := by
  obtain ⟨body, -, mem⟩ := List.mem_flatMap.1 mem
  obtain ⟨piece, split, rfl⟩ := List.mem_map.1 mem
  refine ⟨fun inside => not_mem_of_mem_splitOn split ?_, fun last there => ?_⟩
  · exact (List.rdropWhile_prefix isBlank piece).subset inside
  · have ne : trimEnd piece ≠ [] := List.ne_nil_of_mem (List.mem_of_getLast? there)
    rw [List.getLast?_eq_some_getLast ne] at there
    exact eq_false_of_ne_true (Option.some.inj there ▸ List.rdropWhile_last_not isBlank piece ne)

theorem IsLine.trimEnd_eq (h : IsLine line) : trimEnd line = line := by
  refine List.rdropWhile_eq_self_iff.2 fun ne => ?_
  rw [h.trimmed _ (List.getLast?_eq_some_getLast ne)]
  exact Bool.false_ne_true

/-- The lines of a text: none is blank at the start or the end, no two blank ones follow each
other, and each is one line without blanks at its end. -/
structure IsNormal (lines : List String) : Prop where
  first : lines.head? ≠ some ""
  last : lines.getLast? ≠ some ""
  apart : lines.IsChain fun line next => line ≠ "" ∨ next ≠ ""
  isLine : ∀ line ∈ lines, IsLine line.toList

/-- A text whose lines have no line feed in them, the last one not blank, is cut into these
lines again: no more than the line feed at its end is taken off. -/
theorem splitLines_intercalate (whole : ∀ line ∈ lines, '\n' ∉ line) (some : lines ≠ [])
    (last : lines.getLast? ≠ .some []) :
    splitLines (String.intercalate "\n" (lines.map String.ofList) ++ "\n") =
      lines.map String.ofList := by
  have split := List.splitOn_intercalate '\n' whole some
  have ends : dropTrailing '\n' (['\n'].intercalate lines) = ['\n'].intercalate lines := by
    refine List.rdropWhile_eq_self_iff.2 fun ne final => last ?_
    have cut := List.dropLast_append_getLast ne
    rw [eq_of_beq final] at cut
    rw [← split, ← cut, List.splitOn_append_cons_self, List.splitOn_nil, List.getLast?_concat]
  have chars : (String.intercalate "\n" (lines.map String.ofList) ++ "\n").toList =
      ['\n'].intercalate lines ++ ['\n'] := by
    rw [String.toList_append, String.toList_intercalate, List.map_map]
    simp
  have trimmed : dropTrailing '\n' (['\n'].intercalate lines ++ ['\n']) =
      ['\n'].intercalate lines :=
    (List.rdropWhile_concat_pos _ _ _ rfl).trans ends
  have visible : ['\n'].intercalate lines ≠ [] := by
    intro empty
    rw [empty, List.splitOn_nil] at split
    exact last (by rw [← split, List.getLast?_singleton])
  rw [splitLines, chars, trimmed, if_neg (by simpa using visible), split]

theorem shownLines_prefix (group : CommentGroup) :
    group.shownLines <+: collapse true group.rawLines :=
  List.rdropWhile_prefix _ _

theorem isLine_of_mem_shownLines {group : CommentGroup} (mem : line ∈ group.shownLines) :
    IsLine line :=
  isLine_of_mem_rawLines (mem_of_mem_collapse (group.shownLines_prefix.subset mem))

theorem getLast?_shownLines (group : CommentGroup) : group.shownLines.getLast? ≠ some [] := by
  intro last
  have ne := List.ne_nil_of_mem (List.mem_of_getLast? last)
  rw [List.getLast?_eq_some_getLast ne] at last
  have visible := List.rdropWhile_last_not List.isEmpty (collapse true group.rawLines) ne
  exact visible (List.isEmpty_iff.2 (Option.some.inj last))

/-- The text is cut into the lines that it was made of. -/
theorem textLines_eq (group : CommentGroup) :
    group.textLines = group.shownLines.map String.ofList := by
  unfold textLines text
  split
  · next none =>
    rw [List.isEmpty_iff.1 none]
    rfl
  · next some =>
    exact splitLines_intercalate (fun line mem => (isLine_of_mem_shownLines mem).whole)
      (by simpa using some) group.getLast?_shownLines

theorem isNormal_textLines (group : CommentGroup) : IsNormal group.textLines := by
  have blank (line : List Char) : String.ofList line = "" ↔ line = [] := String.ofList_inj
  have spaced := spaced_collapse true group.rawLines
  obtain ⟨rest, whole⟩ := group.shownLines_prefix
  rw [textLines_eq]
  refine ⟨fun first => ?_, fun last => ?_, ?_, fun line mem => ?_⟩
  · rw [List.head?_map, Option.map_eq_some_iff] at first
    obtain ⟨line, there, empty⟩ := first
    refine spaced.start rfl line ?_ ((blank line).1 empty)
    rw [← whole, List.head?_append, there]
    rfl
  · rw [List.getLast?_map, Option.map_eq_some_iff] at last
    obtain ⟨line, there, empty⟩ := last
    exact group.getLast?_shownLines (there.trans (congrArg some ((blank line).1 empty)))
  · rw [List.isChain_map]
    have chain := spaced.apart
    rw [← whole] at chain
    exact chain.left_of_append.imp fun line next apart =>
      apart.imp (mt (blank line).1) (mt (blank next).1)
  · obtain ⟨letters, there, rfl⟩ := List.mem_map.1 mem
    rw [String.toList_ofList]
    exact isLine_of_mem_shownLines there

/-! ## Lines written as comments again -/

/-- The lines as line comments, from a line of a file on. -/
def commented (start : Nat) (lines : List String) : CommentGroup :=
  { start, stop := start + lines.length - 1, comments := lines.map fun line => "// " ++ line }

/-- What follows a space is no directive. -/
theorem isDirective_space (text : List Char) : isDirective (' ' :: text) = false := by
  unfold isDirective
  rw [splitFirst, if_neg (by decide)]
  cases splitFirst ':' text with
  | none => rfl
  | some parts => rfl

theorem body?_commented (line : String) : body? ("// " ++ line).toList = some line.toList := by
  have mark : dropStart? "//" ("// " ++ line).toList = some (' ' :: line.toList) := by
    rw [String.toList_append]
    rfl
  rw [body?, mark]
  exact if_neg (by rw [isDirective_space]; exact Bool.false_ne_true)

theorem rawLines_commented {lines : List String} (isLine : ∀ line ∈ lines, IsLine line.toList)
    (start : Nat) : (commented start lines).rawLines = lines.map String.toList := by
  induction lines with
  | nil => rfl
  | cons line rest ih =>
    have here := isLine line List.mem_cons_self
    have rest := ih fun other mem => isLine other (List.mem_cons_of_mem _ mem)
    unfold rawLines commented at rest ⊢
    rw [List.map_cons, List.filterMap_cons, body?_commented, List.flatMap_cons, rest,
      List.splitOn_eq_singleton here.whole, List.map_singleton, here.trimEnd_eq]
    rfl

/-- Lines of the form of a text are read back from comments as they are. -/
theorem IsNormal.textLines_commented {lines : List String} (h : IsNormal lines) (start : Nat) :
    (commented start lines).textLines = lines := by
  have visible (line : String) : line ≠ "" ↔ line.toList ≠ [] := by simp
  have spaced : Spaced true (lines.map String.toList) := by
    refine ⟨?_, fun _ first there empty => ?_⟩
    · rw [List.isChain_map]
      exact h.apart.imp fun line next => Or.imp (visible line).1 (visible next).1
    · rw [List.head?_map, Option.mem_def, Option.map_eq_some_iff] at there
      obtain ⟨line, there, rfl⟩ := there
      exact h.first (there.trans (congrArg some (String.toList_inj.1 empty)))
  have ends : dropTrailingBlank (lines.map String.toList) = lines.map String.toList := by
    refine List.rdropWhile_eq_self_iff.2 fun ne empty => h.last ?_
    rw [List.getLast_map, List.isEmpty_iff, String.toList_eq_nil_iff] at empty
    rw [List.getLast?_eq_some_getLast (by simpa using ne), empty]
  rw [textLines_eq, shownLines, rawLines_commented h.isLine, spaced.collapse_eq, ends,
    List.map_map]
  exact (List.map_congr_left fun line _ => String.ofList_toList).trans (List.map_id lines)

/-- The text of comments is a normal form: its lines are, the text is the lines joined with
line feeds and one more at the end, and nothing if there are none, and the lines written as
line comments have the same lines again. -/
theorem text_normal_form (group : CommentGroup) (start : Nat) :
    IsNormal group.textLines ∧
      group.text = (if group.textLines = [] then "" else
        String.intercalate "\n" group.textLines ++ "\n") ∧
      (commented start group.textLines).textLines = group.textLines := by
  have normal := group.isNormal_textLines
  refine ⟨normal, ?_, normal.textLines_commented start⟩
  simp only [textLines_eq, text, List.isEmpty_iff, List.map_eq_nil_iff]

end GoAtlas.CommentGroup
