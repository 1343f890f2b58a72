import GoAtlas.Proofs.FileTree.Descent
import GoAtlas.Proofs.Locator

/-!
# Paths of the directories below a package

A directory below a package is looked for under a path of its own: the import path of the
package, with the names from there on. Such a path is a directory or an import path as the
one above it is (`isLocal_join`), and it has the components of both (`components_join`). So
it is found, with the import path that the directory has (`directory_join`): by the path of
the directory itself, or below the search root that the package was found below. Whether an
earlier search root has a directory of that path too is another matter.
-/

namespace GoAtlas

variable {location : String}

/-! ## Texts -/

namespace Text

variable {text : List Char} {c : Char}

theorem exists_run_dropTrailing (c : Char) (text : List Char) :
    ∃ n, text = dropTrailing c text ++ List.replicate n c := by
  have run : (text.reverse.takeWhile (· == c)).reverse =
      List.replicate (text.reverse.takeWhile (· == c)).reverse.length c := by
    refine List.eq_replicate_of_mem fun other mem => ?_
    exact eq_of_beq (List.all_eq_true.1 List.all_takeWhile other (List.mem_reverse.1 mem))
  refine ⟨(text.reverse.takeWhile (· == c)).reverse.length, ?_⟩
  rw [← run, dropTrailing, ← List.reverse_append, List.takeWhile_append_dropWhile,
    List.reverse_reverse]

theorem dropTrailing_eq_self (ends : text.getLast? ≠ some c) : dropTrailing c text = text := by
  rw [dropTrailing]
  rw [← List.head?_reverse] at ends
  cases reversed : text.reverse with
  | nil => simpa using reversed.symm
  | cons last others =>
    rw [reversed, List.head?_cons] at ends
    rw [List.dropWhile_cons_of_neg (by simpa using ends), ← reversed, List.reverse_reverse]

theorem dropAround_eq_self (starts : text.head? ≠ some c) (ends : text.getLast? ≠ some c) :
    dropAround c text = text := by
  have kept : text.dropWhile (· == c) = text := by
    cases text with
    | nil => rfl
    | cons first others =>
      exact List.dropWhile_cons_of_neg (by simpa using starts)
  rw [dropAround, kept, dropTrailing_eq_self ends]

/-- A text starts with the piece if it is the piece, or goes on after it. -/
theorem head?_splitOn_iff {piece : List Char} (free : c ∉ piece) :
    (text.splitOn c).head? = some piece ↔ text = piece ∨ (piece ++ [c]).isPrefixOf text = true := by
  rw [List.isPrefixOf_iff_prefix]
  constructor
  · intro starts
    obtain ⟨others, pieces⟩ := List.head?_eq_some_iff.1 starts
    have text := @List.intercalate_splitOn _ text _ _ c
    rw [pieces] at text
    by_cases last : others = []
    · rw [last] at text
      exact .inl (text.symm.trans (List.append_nil piece))
    · rw [List.intercalate_cons_of_ne_nil last] at text
      exact .inr ⟨_, text⟩
  · rintro (rfl | ⟨rest, rfl⟩)
    · rw [List.splitOn_eq_singleton free]
      rfl
    · rw [List.append_assoc, List.singleton_append, List.splitOn_append_cons_self,
        List.splitOn_eq_singleton free]
      rfl

end Text

namespace Place

variable {names : Place}

theorem foldl_cleanStep_names (before : List Component) (names : Place) :
    (names.map Component.name).foldl FilePath.cleanStep before =
      before ++ names.map Component.name := by
  induction names generalizing before with
  | nil => exact (List.append_nil before).symm
  | cons name rest ih =>
    rw [List.map_cons, List.foldl_cons, ih, List.append_cons]
    rfl

/-- A path with the components of a place is cleaned to the path of the place. -/
theorem clean_eq {path : FilePath}
    (components : path.components = .root :: names.map Component.name) :
    path.clean = Place.path names := by
  rw [FilePath.clean, components, List.foldl_cons]
  show FilePath.ofComponents ((names.map Component.name).foldl FilePath.cleanStep [.root]) = _
  rw [foldl_cleanStep_names]
  show FilePath.mk ("/" ++ String.intercalate "/"
    ((names.map Component.name).map Component.text)) = _
  rw [Component.map_text_name]
  rfl

variable (named : names.Named)

include named

/-- The names are the pieces of the text that is written with slashes between them. -/
theorem splitOn_intercalate (below : names ≠ []) :
    (String.intercalate "/" names).toList.splitOn '/' = names.map String.toList := by
  rw [String.toList_intercalate]
  refine List.splitOn_intercalate '/' (fun letters mem => ?_) (by simpa using below)
  obtain ⟨name, there, rfl⟩ := List.mem_map.1 mem
  exact (named name there).2.2.2

theorem filterMap_splitOn :
    ((String.intercalate "/" names).toList.splitOn '/').filterMap Component.ofPiece =
      names.map Component.name := by
  by_cases below : names = []
  · rw [below]
    rfl
  · rw [splitOn_intercalate named below, filterMap_ofPiece named]

theorem nil_not_mem_splitOn (below : names ≠ []) :
    [] ∉ (String.intercalate "/" names).toList.splitOn '/' := by
  rw [splitOn_intercalate named below]
  intro mem
  obtain ⟨name, there, empty⟩ := List.mem_map.1 mem
  exact (named name there).1 (String.toList_inj.1 empty)

theorem head?_intercalate_ne :
    (String.intercalate "/" names).toList.head? ≠ some '/' := by
  intro starts
  by_cases below : names = []
  · rw [below] at starts
    cases starts
  · obtain ⟨rest, split⟩ := List.head?_eq_some_iff.1 starts
    refine nil_not_mem_splitOn named below ?_
    rw [split, ← List.nil_append ('/' :: rest), List.splitOn_append_cons_self, List.splitOn_nil]
    exact List.mem_append_left _ List.mem_cons_self

theorem dropAround_intercalate (below : names ≠ []) :
    Text.dropAround '/' (String.intercalate "/" names).toList =
      (String.intercalate "/" names).toList := by
  refine Text.dropAround_eq_self (head?_intercalate_ne named) fun ends => ?_
  obtain ⟨before, split⟩ := List.getLast?_eq_some_iff.1 ends
  refine nil_not_mem_splitOn named below ?_
  rw [split, List.splitOn_append_cons_self, List.splitOn_nil]
  exact List.mem_append_right _ List.mem_cons_self

theorem components_intercalate :
    (⟨String.intercalate "/" names⟩ : FilePath).components = names.map Component.name := by
  have split := filterMap_splitOn named
  cases names with
  | nil => rfl
  | cons name rest =>
    have pieces := splitOn_intercalate named (List.cons_ne_nil name rest)
    obtain ⟨nonempty, current, -, -⟩ := named name List.mem_cons_self
    have below : (⟨String.intercalate "/" (name :: rest)⟩ : FilePath).isAbsolute = false := by
      refine eq_false_of_ne_true fun absolute => ?_
      exact head?_intercalate_ne named (eq_of_beq absolute)
    have start : ((name :: rest).map String.toList).head? ≠ some ['.'] := fun eq =>
      current (String.toList_inj.1 (Option.some.inj eq))
    rw [FilePath.components, below, split, pieces, if_neg Bool.false_ne_true, if_neg start]
    rfl

end Place

/-! ## Components -/

theorem FilePath.filterMap_slashes (n : Nat) :
    ((List.replicate n '/').splitOn '/').filterMap Component.ofPiece = [] := by
  induction n with
  | zero => rfl
  | succ n ih =>
    rw [List.replicate_succ, ← List.nil_append ('/' :: _), List.splitOn_append_cons_self,
      List.filterMap_append, ih]
    rfl

/-- Slashes at the end make no difference, unless there is nothing else. -/
theorem FilePath.exists_components_dropTrailing {path : FilePath} (ne : path.text ≠ "") :
    ∃ above : FilePath, path.components = above.components ∧
      (above.text.toList = Text.dropTrailing '/' path.text.toList ∧
          Text.dropTrailing '/' path.text.toList ≠ [] ∨
        above.text.toList = Text.dropTrailing '/' path.text.toList ++ ['/']) := by
  obtain ⟨n, split⟩ := Text.exists_run_dropTrailing '/' path.text.toList
  generalize Text.dropTrailing '/' path.text.toList = before at split ⊢
  cases n with
  | zero =>
    rw [List.replicate_zero, List.append_nil] at split
    refine ⟨path, rfl, .inl ⟨split, fun empty => ne ?_⟩⟩
    rw [← String.toList_inj, split, empty]
    rfl
  | succ n =>
    have above (above : FilePath) (ends : above.text.toList = before ∧ before ≠ [] ∨
        above.text.toList = before ++ ['/']) : path.components = above.components := by
      rw [components_of_slash split ends, filterMap_slashes, List.append_nil]
    by_cases empty : before = []
    · exact ⟨⟨"/"⟩, above _ (.inr (by rw [empty]; rfl)), .inr (by rw [empty]; rfl)⟩
    · have ends : (String.ofList before).toList = before ∧ before ≠ [] :=
        ⟨String.toList_ofList, empty⟩
      exact ⟨⟨String.ofList before⟩, above _ (.inl ends), .inl ends⟩

/-- The path of names below another one has the components of that, and the names. -/
theorem ImportPath.components_join {base : String} {names : Place} (named : names.Named)
    (below : names ≠ []) :
    (⟨join base (String.intercalate "/" names)⟩ : FilePath).components =
      (⟨base⟩ : FilePath).components ++ names.map Component.name := by
  have nonempty : String.intercalate "/" names ≠ "" := by
    intro empty
    refine Place.nil_not_mem_splitOn named below ?_
    rw [empty]
    exact List.mem_cons_self
  unfold join
  rw [Place.dropAround_intercalate named below, String.ofList_toList]
  dsimp only
  rw [if_neg (by simpa using nonempty)]
  split
  · next empty =>
    have none : (⟨base⟩ : FilePath).components = [] :=
      FilePath.components_eq_nil_iff.2 (String.isEmpty_iff.1 empty)
    rw [none, Place.components_intercalate named]
    rfl
  · next some =>
    have ne : base ≠ "" := by simpa using some
    obtain ⟨above, same, ends⟩ := @FilePath.exists_components_dropTrailing ⟨base⟩ ne
    have text : (String.ofList (Text.dropTrailing '/' base.toList) ++ "/" ++
        String.intercalate "/" names).toList =
          Text.dropTrailing '/' base.toList ++ '/' :: (String.intercalate "/" names).toList := by
      rw [String.toList_append, String.toList_append, String.toList_ofList, List.append_assoc]
      rfl
    rw [FilePath.components_of_slash text ends, same, Place.filterMap_splitOn named]

/-! ## Locations -/

theorem isLocal_iff_head? :
    isLocal location = true ↔
      (location.toList.splitOn '/').head? = some ['.'] ∨
        (location.toList.splitOn '/').head? = some ['.', '.'] ∨
          (⟨location⟩ : FilePath).isAbsolute = true := by
  have current : location = "." ↔ location.toList = ['.'] := String.toList_inj.symm
  have parent : location = ".." ↔ location.toList = ['.', '.'] := String.toList_inj.symm
  rw [Text.head?_splitOn_iff (by decide), Text.head?_splitOn_iff (by decide), ← current, ← parent]
  simp only [isLocal, Bool.or_eq_true, beq_iff_eq]
  show _ ↔ (_ ∨ Text.startsWith "./" location.toList = true) ∨
    (_ ∨ Text.startsWith "../" location.toList = true) ∨ _
  tauto

/-- A location is a directory if its path starts with something other than a name. -/
theorem isLocal_iff :
    isLocal location = true ↔
      ∃ first ∈ (⟨location⟩ : FilePath).components.head?, first.name? = none := by
  rw [isLocal_iff_head?]
  cases absolute : (⟨location⟩ : FilePath).isAbsolute with
  | true =>
    rw [FilePath.components_of_isAbsolute absolute]
    exact iff_of_true (.inr (.inr rfl)) ⟨.root, rfl, rfl⟩
  | false =>
    rw [FilePath.components, absolute, if_neg Bool.false_ne_true]
    cases text : location.toList with
    | nil =>
      refine iff_of_false ?_ ?_
      · rintro (eq | eq | eq) <;> cases eq
      · rintro ⟨first, there, -⟩
        cases there
    | cons char letters =>
      have plain : char ≠ '/' := by
        rintro rfl
        rw [FilePath.isAbsolute, text] at absolute
        cases absolute
      obtain ⟨piece, others, pieces⟩ := FilePath.splitOn_of_relative letters plain
      rw [pieces, List.head?_cons, List.filterMap_cons, Component.ofPiece]
      by_cases current : char :: piece = ['.']
      · rw [if_pos (congrArg some current)]
        exact iff_of_true (.inl (congrArg some current)) ⟨.current, rfl, rfl⟩
      · rw [if_neg (mt Option.some.inj current),
          if_neg (not_or.2 ⟨List.cons_ne_nil _ _, current⟩)]
        by_cases parent : char :: piece = ['.', '.']
        · rw [if_pos parent]
          exact iff_of_true (.inr (.inl (congrArg some parent))) ⟨.parent, rfl, rfl⟩
        · rw [if_neg parent]
          refine iff_of_false ?_ ?_
          · rintro (eq | eq | eq)
            · exact current (Option.some.inj eq)
            · exact parent (Option.some.inj eq)
            · cases eq
          · rintro ⟨first, there, other⟩
            cases there
            cases other

/-- Names with slashes between them are looked for below the search roots. -/
theorem Place.isLocal_intercalate {names : Place} (named : names.Named) :
    isLocal (String.intercalate "/" names) = false := by
  refine eq_false_of_ne_true fun looked => ?_
  obtain ⟨first, there, other⟩ := isLocal_iff.1 looked
  rw [Place.components_intercalate named, List.head?_map] at there
  obtain ⟨name, -, rfl⟩ := Option.map_eq_some_iff.1 there
  cases other

/-- A directory below is looked for as the one above it. -/
theorem isLocal_join {base : String} {names : Place} (named : names.Named) (below : names ≠ []) :
    isLocal (ImportPath.join base (String.intercalate "/" names)) = isLocal base := by
  rw [Bool.eq_iff_iff, isLocal_iff, isLocal_iff, ImportPath.components_join named below]
  cases (⟨base⟩ : FilePath).components with
  | nil =>
    obtain ⟨name, rest, rfl⟩ := List.exists_cons_of_ne_nil below
    refine iff_of_false ?_ ?_
    · rintro ⟨first, there, other⟩
      cases there
      cases other
    · rintro ⟨first, there, -⟩
      cases there
  | cons first rest => rfl

/-- What is looked for below a search root adds its own components. -/
theorem FilePath.components_join_of_not_isLocal {base : FilePath} {relative : String}
    (ne : base.text ≠ "") (looked : isLocal relative = false) :
    (base.join relative).components = base.components ++ (⟨relative⟩ : FilePath).components := by
  have other := mt isLocal_iff_head?.2 (Bool.eq_false_iff.1 looked)
  rw [not_or, not_or] at other
  obtain ⟨current, -, below⟩ := other
  have own : (⟨relative⟩ : FilePath).components =
      (relative.toList.splitOn '/').filterMap Component.ofPiece := by
    rw [components, if_neg below, if_neg current]
    rfl
  rw [components_join ne (eq_false_of_ne_true below), own]

/-! ## Directories below -/

namespace Roots

variable {roots : Roots} {tree : FileTree} {location importPath : String} {place : Place}
  {names : List String}

/-- The import path that the directory at a place has if it is found at the location. -/
def pathAt (roots : Roots) (tree : FileTree) (location : String) (place : Place) : String :=
  if isLocal location then (roots.importPath? tree place.path).getD place.path.text else location

/-- The paths that a package may go under if it is asked for at the location and is the one
at the place. -/
def pathsAt (roots : Roots) (tree : FileTree) (location : String) (place : Place) : List String :=
  [location, ImportPath.canonical (roots.pathAt tree location place)]

theorem directory_eq_ok (h : roots.directory tree location = .ok (place, importPath)) :
    importPath = roots.pathAt tree location place ∧ tree.entryAt? place = some .directory := by
  unfold directory at h
  unfold pathAt
  split at h
  next looked =>
    rw [if_pos looked]
    dsimp only at h
    split at h
    next => cases h
    next found =>
      cases h
      exact ⟨rfl, (FileTree.directory?_eq_some found).2⟩
  next looked =>
    rw [if_neg looked]
    split at h
    next found =>
      cases h
      obtain ⟨root, -, found⟩ := List.exists_of_findSome?_eq_some found
      exact ⟨rfl, (FileTree.directory?_eq_some found).2⟩
    next => cases h

/-- What is found below some root is found, though not there perhaps. -/
theorem directory_of_root {root : FilePath} (looked : isLocal location = false)
    (mem : root ∈ roots.searchPaths) (found : tree.directory? (root.join location) = some place)
    (other : Place) :
    ∃ first, roots.directory tree location = .ok (first, roots.pathAt tree location other) := by
  rw [directory, pathAt, looked, if_neg Bool.false_ne_true, if_neg Bool.false_ne_true]
  cases search : roots.searchPaths.findSome? fun root => tree.directory? (root.join location) with
  | some first => exact ⟨first, rfl⟩
  | none =>
    have missing := List.findSome?_eq_none_iff.1 search root mem
    rw [found] at missing
    cases missing

variable (closed : tree.Closed)

include closed

/-- A directory is found by its own path, and has the import path there that it has. -/
theorem directory_of_components
    (parts : (⟨location⟩ : FilePath).components = .root :: place.map Component.name)
    (there : tree.entryAt? place = some .directory) (short : place.path.Admissible) :
    roots.directory tree location = .ok (place, roots.pathAt tree location place) := by
  have looked : isLocal location = true := isLocal_iff.2 ⟨.root, by rw [parts]; rfl, rfl⟩
  have dir : (roots.workingDir.join location).clean = place.path := by
    rw [FilePath.join_absolute (FilePath.isAbsolute_of_components parts), Place.clean_eq parts]
  rw [directory, pathAt, if_pos looked, if_pos looked, dir]
  dsimp only
  rw [closed.directory?_path there short]

variable (rooted : ∀ root ∈ roots.searchPaths, root.text ≠ "")

include rooted

/-- A directory has its import path from a root that leads to a directory above it. -/
theorem exists_root_of_importPath? (there : tree.entryAt? place = some .directory)
    (h : roots.importPath? tree place.path = some importPath) :
    ∃ root ∈ roots.searchPaths, ∃ above names,
      tree.follow .found FileTree.linkLimit (tree.outset root) root.pieces = .ok above ∧
      place = above ++ names ∧ names ≠ [] ∧ importPath = String.intercalate "/" names := by
  have named := (closed.named_of_entryAt? there).1
  obtain ⟨root, mem, found⟩ := List.exists_of_findSome?_eq_some h
  obtain ⟨rest, below, found⟩ := Option.bind_eq_some_iff.1 found
  have parts := List.isPrefixOf?_eq_some_iff_append_eq.1 below
  rw [Place.components_path named] at parts
  obtain ⟨above, led, components⟩ : ∃ above,
      tree.follow .found FileTree.linkLimit (tree.outset root) root.pieces = .ok above ∧
      (((tree.canonical? root).map Place.path).getD root).components =
        .root :: above.map Component.name := by
    cases canonical : tree.canonical? root with
    | some above =>
      unfold FileTree.canonical? at canonical
      rw [if_neg (rooted root mem)] at canonical
      cases led : tree.follow .found FileTree.linkLimit (tree.outset root) root.pieces with
      | ok other =>
        rw [led] at canonical
        cases canonical
        exact ⟨above, rfl, Place.components_path (FileTree.follow_outset_named led)⟩
      | error fault =>
        rw [led] at canonical
        cases canonical
    | none =>
      -- a root above the directory leads to it, as there are no links on the way
      exfalso
      rw [canonical] at parts
      cases own : root.components with
      | nil => exact rooted root mem (FilePath.components_eq_nil_iff.1 own)
      | cons first others =>
        have parts : root.components ++ rest = .root :: place.map Component.name := parts
        rw [own, List.cons_append] at parts
        obtain ⟨rfl, split⟩ := List.cons.inj parts
        obtain ⟨above, names, rfl, rfl, -⟩ := List.map_eq_append_iff.1 split.symm
        rw [FileTree.canonical?, if_neg (rooted root mem),
          closed.follow_path own (closed.above there)] at canonical
        cases canonical
  rw [components] at parts
  obtain ⟨above', names, rfl, same, rfl⟩ := List.map_eq_append_iff.1 (List.cons.inj parts).2.symm
  obtain rfl := (List.map_inj_right fun _ _ eq => Component.name.inj eq).1 same
  have texts : (names.map Component.name).filterMap Component.name? = names := by
    rw [List.filterMap_map]
    exact List.filterMap_some
  dsimp only at found
  rw [texts] at found
  split at found
  · cases found
  · next some =>
    cases found
    exact ⟨root, mem, above', names, led, rfl, by simpa using some, rfl⟩

/-- The path of a directory below one that was found is found too, with the import path that
the directory itself has there. -/
theorem directory_join (led : roots.directory tree location = .ok (place, importPath))
    (below : names ≠ []) (there : tree.entryAt? (place ++ names) = some .directory)
    (short : (Place.path (place ++ names)).Admissible)
    (admissible : ∀ root ∈ roots.searchPaths,
      (root.join (ImportPath.join importPath (String.intercalate "/" names))).Admissible) :
    let child := ImportPath.join importPath (String.intercalate "/" names)
    ∃ other, roots.directory tree child =
      .ok (other, roots.pathAt tree child (place ++ names)) := by
  intro child
  have named := (closed.named_of_entryAt? there).1
  have onward : Place.Named names := fun name mem => named name (List.mem_append_right _ mem)
  have components := @ImportPath.components_join importPath names onward below
  have looks := @isLocal_join importPath names onward below
  obtain ⟨path, here⟩ := directory_eq_ok led
  cases looked : isLocal location with
  | false =>
    -- the root that the package was found below
    obtain rfl : importPath = location := by
      rw [path, pathAt, looked, if_neg Bool.false_ne_true]
    rw [looked] at looks
    unfold directory at led
    rw [looked, if_neg Bool.false_ne_true] at led
    split at led
    next found =>
      cases led
      obtain ⟨root, mem, found⟩ := List.exists_of_findSome?_eq_some found
      have nonempty := rooted root mem
      obtain ⟨-, written, follows⟩ :=
        FileTree.resolve_eq_ok (FileTree.directory?_eq_some found).1
      have parts : (root.join child).components =
          (root.join importPath).components ++ names.map Component.name := by
        rw [FilePath.components_join_of_not_isLocal nonempty looks,
          FilePath.components_join_of_not_isLocal nonempty looked, components, List.append_assoc]
      exact directory_of_root looks mem
        (closed.directory?_below written follows parts there (admissible root mem)) _
    next => cases led
  | true =>
    rw [pathAt, looked, if_pos rfl] at path
    cases own : roots.importPath? tree place.path with
    | none =>
      -- a directory below no root is looked for by its own path
      rw [own, Option.getD_none] at path
      subst path
      have parts : (⟨child⟩ : FilePath).components =
          .root :: (place ++ names).map Component.name := by
        rw [components, List.map_append]
        exact congrArg (· ++ _) (Place.components_path (closed.named_of_entryAt? here).1)
      exact ⟨place ++ names, directory_of_components closed parts there short⟩
    | some known =>
      -- the root that the package has its import path from
      rw [own, Option.getD_some] at path
      subst path
      obtain ⟨root, mem, above, between, follows, rfl, ne, rfl⟩ :=
        exists_root_of_importPath? closed rooted here own
      have named : Place.Named between := fun name mem =>
        (closed.named_of_entryAt? here).1 name (List.mem_append_right _ mem)
      have looked : isLocal child = false := looks.trans (Place.isLocal_intercalate named)
      have parts : (root.join child).components =
          root.components ++ (between ++ names).map Component.name := by
        rw [FilePath.components_join_of_not_isLocal (rooted root mem) looked, components,
          Place.components_intercalate named, List.map_append]
      rw [List.append_assoc] at there
      exact directory_of_root looked mem
        (closed.directory?_below (rooted root mem) follows parts there (admissible root mem)) _

end Roots

end GoAtlas
