import GoAtlas.Proofs.FileTree

/-!
# Components of joined paths

A path below another one has the components of both, one after the other
(`components_join`). So a name below two paths that are the same gives paths that are the
same (`same_join`), and the path of a file tells the directory from the name. Below the
empty path, which has no components, a leading `.` counts; elsewhere it does not.
-/

namespace GoAtlas.FilePath

variable {path base other : FilePath} {before rest : List Char} {relative name : String}

/-- What comes after a slash adds its own components, whether or not the slash stands at
the end of the path before it. -/
theorem components_of_slash (split : path.text.toList = before ++ '/' :: rest)
    (ends : base.text.toList = before ∧ before ≠ [] ∨ base.text.toList = before ++ ['/']) :
    path.components = base.components ++ (rest.splitOn '/').filterMap Component.ofPiece := by
  have first (last : List (List Char)) :
      (before.splitOn '/' ++ last).head? = (before.splitOn '/').head? :=
    List.head?_append_of_ne_nil _ (List.splitOn_ne_nil _ _)
  have start : path.isAbsolute = base.isAbsolute ∧
      (path.text.toList.splitOn '/').head? = (base.text.toList.splitOn '/').head? := by
    rw [isAbsolute, isAbsolute, split, List.splitOn_append_cons_self, first]
    rcases ends with ⟨ends, ne⟩ | ends
    · rw [ends, List.head?_append_of_ne_nil _ ne]
      exact ⟨rfl, rfl⟩
    · rw [ends, List.splitOn_append_cons_self, first]
      cases before <;> exact ⟨rfl, rfl⟩
  have pieces : (base.text.toList.splitOn '/').filterMap Component.ofPiece =
      (before.splitOn '/').filterMap Component.ofPiece := by
    rcases ends with ⟨ends, -⟩ | ends
    · rw [ends]
    · rw [ends, List.splitOn_append_cons_self, List.splitOn_nil, List.filterMap_append]
      exact List.append_nil _
  rw [components, components, start.1, start.2, pieces, split, List.splitOn_append_cons_self,
    List.filterMap_append, List.append_assoc]

theorem join_absolute (absolute : (⟨relative⟩ : FilePath).isAbsolute = true) :
    base.join relative = ⟨relative⟩ :=
  if_pos absolute

theorem join_empty (empty : base.text = "") : base.join relative = ⟨relative⟩ := by
  rw [join, empty]
  split
  · rfl
  · exact congrArg FilePath.mk (String.empty_append)

theorem components_join (ne : base.text ≠ "")
    (below : (⟨relative⟩ : FilePath).isAbsolute = false) :
    (base.join relative).components =
      base.components ++ (relative.toList.splitOn '/').filterMap Component.ofPiece := by
  rw [join, below, if_neg Bool.false_ne_true]
  split
  · next ends =>
    rcases Bool.or_eq_true_iff.1 ends with empty | slash
    · exact absurd (String.isEmpty_iff.1 empty) ne
    · obtain ⟨before, split⟩ := List.getLast?_eq_some_iff.1 (eq_of_beq slash)
      refine components_of_slash ?_ (.inr split)
      rw [String.toList_append, split, List.append_assoc]
      rfl
  · refine components_of_slash ?_ (.inl ⟨rfl, fun eq => ne (String.toList_inj.1 eq)⟩)
    rw [String.toList_append, String.toList_append, List.append_assoc]
    rfl

/-- A text that does not start with a slash has a first piece that is not empty. -/
theorem splitOn_of_relative {char : Char} (letters : List Char) (plain : char ≠ '/') :
    ∃ piece others, (char :: letters).splitOn '/' = (char :: piece) :: others := by
  rw [List.splitOn_cons_eq_if_modifyHead, if_neg (by simpa using plain)]
  cases pieces : letters.splitOn '/' with
  | nil => exact absurd pieces (List.splitOn_ne_nil _ _)
  | cons piece others => exact ⟨piece, others, rfl⟩

/-- Only the empty path has no components. -/
theorem components_eq_nil_iff : path.components = [] ↔ path.text = "" := by
  constructor
  · intro none
    rw [← String.toList_inj]
    cases text : path.text.toList with
    | nil => rfl
    | cons char letters =>
      exfalso
      rw [components, isAbsolute, text, List.append_eq_nil_iff] at none
      by_cases slash : char = '/'
      · subst slash
        cases none.1
      · obtain ⟨piece, others, pieces⟩ := splitOn_of_relative letters slash
        rw [pieces] at none
        obtain ⟨start, first⟩ := none
        rw [List.filterMap_cons] at first
        by_cases current : char :: piece = ['.']
        · simp [slash, current] at start
        · have named : Component.ofPiece (char :: piece) ≠ none := by
            rw [Component.ofPiece, if_neg (by simpa using current)]
            split <;> exact Option.some_ne_none _
          cases component : Component.ofPiece (char :: piece) with
          | none => exact named component
          | some found =>
            rw [component] at first
            cases first
  · intro empty
    rw [components, isAbsolute, empty]
    rfl

theorem same_iff : path.same other = true ↔ path.components = other.components :=
  beq_iff_eq

/-- Below two paths that are the same a file is the same. -/
theorem same_join (h : base.same other = true) (relative : String) :
    (base.join relative).same (other.join relative) = true := by
  rw [same_iff] at h ⊢
  cases absolute : (⟨relative⟩ : FilePath).isAbsolute with
  | true => rw [join_absolute absolute, join_absolute absolute]
  | false =>
    by_cases empty : base.text = ""
    · have empty' : other.text = "" := by
        rw [← components_eq_nil_iff, ← h, components_eq_nil_iff]
        exact empty
      rw [join_empty empty, join_empty empty']
    · have empty' : other.text ≠ "" := by
        rw [ne_eq, ← components_eq_nil_iff, ← h, components_eq_nil_iff]
        exact empty
      rw [components_join empty absolute, components_join empty' absolute, h]

/-- A name is one more component. -/
theorem components_join_name (base : FilePath) (named : IsName name) :
    (base.join name).components = base.components ++ [.name name] := by
  have slash := named.2.2.2
  have below : (⟨name⟩ : FilePath).isAbsolute = false :=
    eq_false_of_ne_true fun absolute => slash (List.mem_of_head? (eq_of_beq absolute))
  have pieces : (name.toList.splitOn '/').filterMap Component.ofPiece = [.name name] := by
    rw [List.splitOn_eq_singleton slash, List.filterMap_cons, Place.ofPiece_name named]
    rfl
  by_cases empty : base.text = ""
  · have current : name.toList ≠ ['.'] := fun eq => named.2.1 (String.toList_inj.1 eq)
    rw [join_empty empty, components_eq_nil_iff.2 empty, components, below, pieces,
      List.splitOn_eq_singleton slash]
    simp [current]
  · rw [components_join empty below, pieces]

end GoAtlas.FilePath
