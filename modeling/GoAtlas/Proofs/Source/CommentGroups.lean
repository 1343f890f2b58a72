import GoAtlas.Source.Comments
import GoAtlas.Source.Index
import Mathlib.Data.List.Nodup

/-!
# Comment groups

The lines of a file are lines of code and runs of comment lines, and each run ends at a line of
code or at the end of the file. The comment groups are these runs with their numbers (`Grouped`,
`grouped_commentGroups`). So a group has the lines of its range (`Grouped.exists_run`), every
comment line is in a group (`Grouped.covers`), and there is a line of code between two groups
(`Grouped.separated`). As no two groups end on one line, the index finds each of them by the line
it ends on (`SourceIndex.endingAt?_insert`).
-/

namespace GoAtlas

namespace Source

open Text

variable {lines run rest : List (List Char)} {line : List Char} {number index : Nat}
variable {group : CommentGroup} {groups : List CommentGroup}

/-- A line by its number, from 1 on. -/
def lineAt? (lines : List (List Char)) : Nat → Option (List Char)
  | 0 => none
  | number + 1 => lines[number]?

/-- The group is made of the lines of a run. -/
structure IsRun (group : CommentGroup) (run : List (List Char)) : Prop where
  ne_nil : run ≠ []
  comment : ∀ line ∈ run, isCommentLine (trim line) = true
  range : group.stop + 1 = group.start + run.length
  comments : group.comments = run.map fun line => String.ofList (trim line)

/-- The first of the lines, if there is one, is no comment line. -/
def StartsWithCode (lines : List (List Char)) : Prop :=
  ∀ line, lines.head? = some line → isCommentLine (trim line) = false

/-- The groups of lines that are numbered from `number` on. -/
inductive Grouped : Nat → List (List Char) → List CommentGroup → Prop
  | nil {number : Nat} : Grouped number [] []
  | code {number : Nat} {line : List Char} {rest : List (List Char)} {groups : List CommentGroup} :
      isCommentLine (trim line) = false → Grouped (number + 1) rest groups →
      Grouped number (line :: rest) groups
  | run {group : CommentGroup} {run rest : List (List Char)} {groups : List CommentGroup} :
      IsRun group run → StartsWithCode rest → Grouped (group.stop + 1) rest groups →
      Grouped group.start (run ++ rest) (group :: groups)

/-! ## The groups of a file -/

/-- A comment line right below a run is one more line of it. -/
theorem IsRun.extend (isRun : IsRun group run) (comment : isCommentLine (trim line) = true) :
    IsRun (Source.extend group (group.stop + 1) (trim line)) (run ++ [line]) where
  ne_nil := by simp
  comment := List.forall_mem_append.2 ⟨isRun.comment, List.forall_mem_singleton.2 comment⟩
  range := by
    have range := isRun.range
    simp only [Source.extend, List.length_append, List.length_singleton]
    omega
  comments := by simp [Source.extend, isRun.comments]

/-- The groups are found whether or not a run is open. An open run takes the lines before it
into account. -/
theorem grouped_groupsFrom (lines : List (List Char)) :
    (∀ number, Grouped number lines (groupsFrom number none lines)) ∧
      ∀ {group run}, IsRun group run →
        Grouped group.start (run ++ lines) (groupsFrom (group.stop + 1) (some group) lines) := by
  induction lines with
  | nil =>
    refine ⟨fun number => .nil, fun isRun => .run isRun (fun line first => ?_) .nil⟩
    cases first
  | cons line rest ih =>
    cases comment : isCommentLine (trim line) with
    | false =>
      simp only [groupsFrom, comment, Bool.false_eq_true, if_false]
      refine ⟨fun number => .code comment (ih.1 _), fun isRun => .run isRun (fun other first => ?_)
        (.code comment (ih.1 _))⟩
      cases first
      exact comment
    | true =>
      simp only [groupsFrom, comment, if_true]
      refine ⟨fun number => ?_, fun {group run} isRun => ?_⟩
      · have single : IsRun (extend ⟨number, number, []⟩ number (trim line)) [line] :=
          ⟨by simp, List.forall_mem_singleton.2 comment, rfl, rfl⟩
        exact ih.2 single
      · have longer := ih.2 (isRun.extend comment)
        rwa [List.append_assoc, List.singleton_append] at longer

theorem grouped_commentGroups (lines : List (List Char)) : Grouped 1 lines (commentGroups lines) :=
  (grouped_groupsFrom lines).1 1

/-- A group has the lines of its range, and no comment line follows them. -/
theorem Grouped.exists_run (h : Grouped number lines groups) (mem : group ∈ groups) :
    ∃ before run after, lines = before ++ (run ++ after) ∧ IsRun group run ∧
      group.start = number + before.length ∧ StartsWithCode after := by
  induction h with
  | nil => cases mem
  | @code number line rest groups _ _ ih =>
    obtain ⟨before, run, after, rfl, isRun, start, ends⟩ := ih mem
    refine ⟨line :: before, run, after, rfl, isRun, ?_, ends⟩
    rw [start, List.length_cons]
    omega
  | @run first run rest groups isRun ends _ ih =>
    rcases List.mem_cons.1 mem with rfl | mem
    · exact ⟨[], run, rest, rfl, isRun, rfl, ends⟩
    · obtain ⟨before, later, after, rfl, isLater, start, ends⟩ := ih mem
      refine ⟨run ++ before, later, after, by simp, isLater, ?_, ends⟩
      rw [start, isRun.range, List.length_append]
      omega

/-- Every comment line is in a group. -/
theorem Grouped.covers (h : Grouped number lines groups) (there : lines[index]? = some line)
    (comment : isCommentLine (trim line) = true) :
    ∃ group ∈ groups, group.start ≤ number + index ∧ number + index ≤ group.stop := by
  induction h generalizing index with
  | nil => cases there
  | @code number other rest groups code _ ih =>
    cases index with
    | zero =>
      cases there
      rw [code] at comment
      cases comment
    | succ index =>
      obtain ⟨group, mem, range⟩ := ih there
      exact ⟨group, mem, by omega, by omega⟩
  | @run first run rest groups isRun _ _ ih =>
    have range := isRun.range
    by_cases within : index < run.length
    · exact ⟨first, List.mem_cons_self, Nat.le_add_right _ _, by omega⟩
    · rw [List.getElem?_append_right (Nat.not_lt.1 within)] at there
      obtain ⟨group, mem, above, below⟩ := ih there
      exact ⟨group, List.mem_cons_of_mem _ mem, by omega, by omega⟩

/-- Between two groups there is a line that is in neither of them. -/
theorem Grouped.separated (h : Grouped number lines groups) :
    groups.Pairwise fun a b => a.stop + 1 < b.start := by
  induction h with
  | nil => exact .nil
  | code _ _ ih => exact ih
  | @run first run rest groups _ ends later ih =>
    refine List.pairwise_cons.2 ⟨fun group mem => ?_, ih⟩
    obtain ⟨before, others, after, rfl, isRun, start, -⟩ := later.exists_run mem
    -- the group does not start with the first line, which is no comment line
    cases before with
    | cons line before => rw [start, List.length_cons]; omega
    | nil =>
      obtain ⟨line, others, rfl⟩ := List.exists_cons_of_ne_nil isRun.ne_nil
      have comment := isRun.comment line List.mem_cons_self
      rw [ends line rfl] at comment
      cases comment

/-! ## Lines and groups -/

theorem IsRun.start_le (isRun : IsRun group run) : group.start ≤ group.stop := by
  have := List.length_pos_iff.2 isRun.ne_nil
  have := isRun.range
  omega

theorem lineAt?_append (before rest : List (List Char)) (index : Nat) :
    lineAt? (before ++ rest) (before.length + index + 1) = rest[index]? := by
  rw [lineAt?, List.getElem?_append_right (Nat.le_add_right _ _), Nat.add_sub_cancel_left]

/-- No group is empty, and the line below it is no comment line. -/
theorem below_commentGroups (mem : group ∈ commentGroups lines) :
    group.start ≤ group.stop ∧
      ∀ line, lineAt? lines (group.stop + 1) = some line → isCommentLine (trim line) = false := by
  obtain ⟨before, run, after, rfl, isRun, start, ends⟩ :=
    (grouped_commentGroups lines).exists_run mem
  refine ⟨isRun.start_le, fun line there => ends line ?_⟩
  have place : group.stop = (before ++ run).length := by
    have := isRun.range
    rw [List.length_append]
    omega
  rw [← List.append_assoc, place] at there
  rw [List.head?_eq_getElem?, ← lineAt?_append, ← there, Nat.add_zero]

/-- No two groups of a file end on one line. -/
theorem commentGroups_increasing (lines : List (List Char)) :
    (commentGroups lines).Pairwise fun a b => a.stop < b.stop := by
  refine (grouped_commentGroups lines).separated.imp_of_mem fun _ mem apart => ?_
  have := (below_commentGroups mem).1
  omega

/-- The lines of a group are comment lines. -/
theorem exists_lineAt?_of_mem (mem : group ∈ commentGroups lines) (above : group.start ≤ number)
    (below : number ≤ group.stop) :
    ∃ line, lineAt? lines number = some line ∧ isCommentLine (trim line) = true := by
  obtain ⟨before, run, after, rfl, isRun, start, -⟩ := (grouped_commentGroups lines).exists_run mem
  have range := isRun.range
  obtain ⟨index, rfl⟩ : ∃ index, number = before.length + index + 1 :=
    ⟨number - group.start, by omega⟩
  have within : index < run.length := by omega
  refine ⟨run[index], ?_, isRun.comment _ (List.getElem_mem within)⟩
  rw [lineAt?_append, List.getElem?_append_left within, List.getElem?_eq_getElem within]

theorem comments_of_mem (mem : group ∈ commentGroups lines) :
    1 ≤ group.start ∧ group.comments =
      ((lines.drop (group.start - 1)).take (group.stop + 1 - group.start)).map
        fun line => String.ofList (trim line) := by
  obtain ⟨before, run, after, rfl, isRun, start, -⟩ := (grouped_commentGroups lines).exists_run mem
  have place : group.start - 1 = before.length := by omega
  have length : group.stop + 1 - group.start = run.length := by
    rw [isRun.range, Nat.add_sub_cancel_left]
  rw [place, length, List.drop_left, List.take_left, isRun.comments]
  exact ⟨by omega, rfl⟩

end Source

/-! ## The index -/

/-- The comment group of a file that ends on a line. -/
def SourceFile.groupAt? {U : Type} (file : SourceFile U) (line : Nat) : Option CommentGroup :=
  file.comments.find? fun group => group.stop == line

namespace CommentIndex

theorem endingAt?_add (index : CommentIndex) (path : FilePath) (group : CommentGroup)
    (other : FilePath) (line : Nat) :
    (index.add path group).endingAt? other line =
      if other.components = path.components ∧ line = group.stop then some group
      else index.endingAt? other line := by
  unfold endingAt? add
  rw [List.lookup_cons]
  by_cases here : other.components = path.components ∧ line = group.stop
  · simp [here]
  · rw [if_neg here]
    have apart : ((other.components, line) == (path.components, group.stop)) = false := by
      simpa using here
    rw [apart]

/-- The groups of a file are found under the components of its path, and hide what was
found there on the same lines. -/
theorem endingAt?_addAll {groups : List CommentGroup}
    (increasing : groups.Pairwise fun a b => a.stop < b.stop) (index : CommentIndex)
    (path other : FilePath) (line : Nat) :
    (index.addAll path groups).endingAt? other line =
      if other.components = path.components then
        (groups.find? fun group => group.stop == line).or (index.endingAt? other line)
      else index.endingAt? other line := by
  induction groups generalizing index with
  | nil => simp [addAll]
  | cons first rest ih =>
    obtain ⟨above, increasing⟩ := List.pairwise_cons.1 increasing
    rw [addAll, List.foldl_cons, ← addAll, ih increasing, endingAt?_add]
    by_cases same : other.components = path.components
    · rw [if_pos same, if_pos same, List.find?_cons]
      by_cases here : line = first.stop
      · have last : rest.find? (fun group => group.stop == line) = none := by
          refine List.find?_eq_none.2 fun group mem => ?_
          have later := above group mem
          simp only [beq_iff_eq]
          omega
        rw [last, if_pos ⟨same, here⟩, here]
        simp
      · have elsewhere : (first.stop == line) = false := by
          simpa using Ne.symm here
        rw [elsewhere, if_neg fun both => here both.2]
    · rw [if_neg same, if_neg same, if_neg fun both => same both.1]

end CommentIndex

namespace SourceIndex

variable {U : Type} {index : SourceIndex U} {package : String} {file : SourceFile U}

theorem endingAt?_insert (fresh : index.containsFile package file.path = false)
    (increasing : file.comments.Pairwise fun a b => a.stop < b.stop) (path : FilePath)
    (line : Nat) :
    (index.insert package file).comments.endingAt? path line =
      if path.components = file.path.components then
        (file.groupAt? line).or (index.comments.endingAt? path line)
      else index.comments.endingAt? path line := by
  rw [insert, fresh]
  exact CommentIndex.endingAt?_addAll increasing _ _ _ _

end SourceIndex

/-! ## Groups by the line they end on -/

namespace Source

open Text

variable {lines : List (List Char)} {group : CommentGroup} {line : Nat}

theorem eq_of_stop_eq {a b : CommentGroup} (mem : a ∈ commentGroups lines)
    (mem' : b ∈ commentGroups lines) (same : a.stop = b.stop) : a = b := by
  have distinct : ((commentGroups lines).map CommentGroup.stop).Nodup :=
    List.pairwise_map.2 ((commentGroups_increasing lines).imp Nat.ne_of_lt)
  exact List.inj_on_of_nodup_map distinct mem mem' same

theorem find?_stop_eq_some_iff :
    (commentGroups lines).find? (fun group => group.stop == line) = some group ↔
      group ∈ commentGroups lines ∧ group.stop = line := by
  constructor
  · intro found
    exact ⟨List.mem_of_find?_eq_some found, by simpa using List.find?_some found⟩
  · rintro ⟨mem, rfl⟩
    cases found : (commentGroups lines).find? fun other => other.stop == group.stop with
    | none => exact absurd (beq_self_eq_true _) (List.find?_eq_none.1 found group mem)
    | some other =>
      have same : other.stop = group.stop := by simpa using List.find?_some found
      rw [eq_of_stop_eq (List.mem_of_find?_eq_some found) mem same]

/-- Between two groups there is a line that is no comment line. -/
theorem code_between (lines : List (List Char)) :
    (commentGroups lines).Pairwise fun a b => ∃ number line, a.stop < number ∧ number < b.start ∧
      lineAt? lines number = some line ∧ isCommentLine (trim line) = false := by
  refine (grouped_commentGroups lines).separated.imp_of_mem fun {a b} mem mem' apart => ?_
  have within := (below_commentGroups mem').1
  obtain ⟨last, there, -⟩ := exists_lineAt?_of_mem mem' (Nat.le_refl _) within
  obtain ⟨before, start⟩ : ∃ before, b.start = before + 1 := ⟨b.start - 1, by omega⟩
  rw [start, lineAt?] at there
  have short : a.stop < lines.length := by
    have := (List.getElem?_eq_some_iff.1 there).1
    omega
  have here : lineAt? lines (a.stop + 1) = some lines[a.stop] := List.getElem?_eq_getElem short
  exact ⟨a.stop + 1, _, Nat.lt_succ_self _, apart, here, (below_commentGroups mem).2 _ here⟩

/-- The comment groups of a file are its maximal runs of comment lines, in order, and once the file
is indexed each of them is found by the line it ends on. -/
theorem comment_groups_are_runs (lines : List (List Char)) :
    (commentGroups lines).Pairwise (fun a b => ∃ number line, a.stop < number ∧ number < b.start ∧
      lineAt? lines number = some line ∧ isCommentLine (trim line) = false) ∧
    (∀ number, (∃ group ∈ commentGroups lines, group.start ≤ number ∧ number ≤ group.stop) ↔
      ∃ line, lineAt? lines number = some line ∧ (startsWith "//" (trim line) = true ∨
        startsWith "/*" (trim line) = true ∧ endsWith "*/" (trim line) = true)) ∧
    (∀ group ∈ commentGroups lines, 1 ≤ group.start ∧ group.start ≤ group.stop ∧
      group.comments = ((lines.drop (group.start - 1)).take (group.stop + 1 - group.start)).map
        fun line => String.ofList (trim line)) ∧
    (∀ a ∈ commentGroups lines, ∀ b ∈ commentGroups lines, a.stop = b.stop → a = b) ∧
    ∀ (U : Type) (index : SourceIndex U) (package : String) (file : SourceFile U),
      file.comments = commentGroups lines → index.containsFile package file.path = false →
      (∀ line, index.comments.endingAt? file.path line = none) →
      ∀ line group, (index.insert package file).comments.endingAt? file.path line = some group ↔
        group ∈ commentGroups lines ∧ group.stop = line := by
  refine ⟨code_between lines, fun number => ?_, fun group mem => ?_, fun a mem b mem' =>
    eq_of_stop_eq mem mem', fun U index package file comments fresh none line group => ?_⟩
  · simp only [← Bool.and_eq_true, ← Bool.or_eq_true]
    constructor
    · rintro ⟨group, mem, above, below⟩
      exact exists_lineAt?_of_mem mem above below
    · rintro ⟨line, there, comment⟩
      cases number with
      | zero => cases there
      | succ index =>
        rw [Nat.add_comm]
        exact (grouped_commentGroups lines).covers there comment
  · obtain ⟨first, comments⟩ := comments_of_mem mem
    exact ⟨first, (below_commentGroups mem).1, comments⟩
  · rw [SourceIndex.endingAt?_insert fresh (comments ▸ commentGroups_increasing lines), if_pos rfl,
      none, Option.or_none, SourceFile.groupAt?, comments, find?_stop_eq_some_iff]

/-- Two groups around a line of code, in a file that is indexed first. -/
theorem comment_groups_are_runs_two :
    let lines := ["// T counts", "\t/* lines */ ", "type T int", "// Last"].map String.toList
    let file : SourceFile Unit :=
      { path := ⟨"a.go"⟩, packageName := "p", doc := none, comments := commentGroups lines
        imports := [], unit := () }
    let index : SourceIndex Unit := {}
    commentGroups lines = [⟨1, 2, ["// T counts", "/* lines */"]⟩, ⟨4, 4, ["// Last"]⟩] ∧
      (index.insert "p" file).comments.endingAt? file.path 2 =
        some ⟨1, 2, ["// T counts", "/* lines */"]⟩ := by
  intro lines file index
  have groups :
      commentGroups lines = [⟨1, 2, ["// T counts", "/* lines */"]⟩, ⟨4, 4, ["// Last"]⟩] := by
    decide +kernel
  obtain ⟨-, -, -, -, found⟩ := comment_groups_are_runs lines
  refine ⟨groups, (found Unit index "p" file rfl rfl (fun _ => rfl) 2 _).2 ⟨?_, rfl⟩⟩
  rw [groups]
  exact List.mem_cons_self

end Source

end GoAtlas
