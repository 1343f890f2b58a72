import Mathlib.Data.List.Basic
import GoAtlas.FileTree

/-!
# Names and places

Wherever a path leads to, the way there consists of names: pieces that are not
empty, hold no slash and are neither `.` nor `..`. So a place can be read back from
its path, and two files of one directory never have the same path. Paths with the same
components lead to the same place, where they lead anywhere (`resolve_of_same`).
-/

namespace GoAtlas

/-- The text can be the name of a directory or a file. -/
def IsName (text : String) : Prop :=
  text ≠ "" ∧ text ≠ "." ∧ text ≠ ".." ∧ '/' ∉ text.toList

instance (text : String) : Decidable (IsName text) :=
  inferInstanceAs (Decidable (_ ∧ _ ∧ _ ∧ _))

/-- The component leads somewhere. -/
def Component.isStep : Component → Bool
  | .root | .current => false
  | .parent | .name _ => true

theorem Component.filter_name (names : List String) :
    (names.map name).filter isStep = names.map name :=
  List.filter_eq_self.2 fun component mem => by
    obtain ⟨_, -, rfl⟩ := List.mem_map.1 mem
    rfl

theorem Component.isStep_of_ofPiece {piece : List Char} {component : Component}
    (h : ofPiece piece = some component) : component.isStep = true := by
  unfold ofPiece at h
  split at h
  · cases h
  · split at h <;> · cases h; rfl

/-- No piece of a split list holds what the list was split on. -/
theorem not_mem_of_mem_splitOn {separator : Char} {text piece : List Char}
    (h : piece ∈ text.splitOn separator) : separator ∉ piece := by
  induction text generalizing piece with
  | nil =>
    rw [List.splitOn_nil, List.mem_singleton] at h
    simp [h]
  | cons char rest ih =>
    rw [List.splitOn_cons_eq_if_modifyHead] at h
    split at h
    next =>
      rcases List.mem_cons.1 h with rfl | h
      · simp
      · exact ih h
    next differs =>
      cases pieces : rest.splitOn separator with
      | nil => simp [pieces] at h
      | cons first others =>
        rw [pieces] at h ih
        rcases List.mem_cons.1 h with rfl | h
        · rw [List.mem_cons, not_or]
          exact ⟨fun eq => differs (by simp [eq]), ih List.mem_cons_self⟩
        · exact ih (List.mem_cons_of_mem _ h)

namespace FilePath

variable {path : FilePath}

/-- The components after the start of a path. -/
def steps (path : FilePath) : List Component :=
  (path.text.toList.splitOn '/').filterMap Component.ofPiece

theorem isStep_of_mem_steps {component : Component} (mem : component ∈ path.steps) :
    component.isStep = true := by
  obtain ⟨piece, -, found⟩ := List.mem_filterMap.1 mem
  exact Component.isStep_of_ofPiece found

theorem components_of_isAbsolute (absolute : path.isAbsolute = true) :
    path.components = .root :: path.steps := by
  rw [components, if_pos absolute]
  rfl

theorem steps_eq (path : FilePath) : path.steps = path.components.filter Component.isStep := by
  have steps : path.steps.filter Component.isStep = path.steps :=
    List.filter_eq_self.2 fun _ => isStep_of_mem_steps
  rw [components, List.filter_append]
  show _ = _ ++ path.steps.filter Component.isStep
  rw [steps]
  split
  · rfl
  · split <;> rfl

theorem isName_of_mem_components {text : String} (mem : .name text ∈ path.components) :
    IsName text := by
  have mem : .name text ∈ path.steps := by
    rw [steps_eq]
    exact List.mem_filter.2 ⟨mem, rfl⟩
  obtain ⟨piece, split, found⟩ := List.mem_filterMap.1 mem
  unfold Component.ofPiece at found
  split at found
  · cases found
  · next idle =>
    rw [not_or] at idle
    split at found
    · cases found
    · next up =>
      have spells (letters : List Char) (ne : piece ≠ letters) :
          String.ofList piece ≠ String.ofList letters := mt String.ofList_inj.1 ne
      cases found
      refine ⟨spells _ idle.1, spells _ idle.2, spells _ up, ?_⟩
      rw [String.toList_ofList]
      exact not_mem_of_mem_splitOn split

theorem isAbsolute_of_components {rest : List Component}
    (start : path.components = .root :: rest) : path.isAbsolute = true := by
  by_contra relative
  rw [components, if_neg relative] at start
  split at start
  · cases start
  · have mem : .root ∈ path.steps :=
      (List.nil_append path.steps).symm.trans start ▸ List.mem_cons_self
    cases isStep_of_mem_steps mem

theorem isAbsolute_iff : path.isAbsolute = true ↔ path.components.head? = some .root := by
  constructor
  · intro absolute
    rw [components_of_isAbsolute absolute]
    rfl
  · intro first
    obtain ⟨rest, start⟩ := List.head?_eq_some_iff.1 first
    exact isAbsolute_of_components start

end FilePath

theorem FilePath.slash_not_mem_of_mem_pieces {path : FilePath} {piece : String}
    (h : piece ∈ path.pieces) : '/' ∉ piece.toList := by
  obtain ⟨letters, split, rfl⟩ := List.mem_map.1 h
  rw [String.toList_ofList]
  exact not_mem_of_mem_splitOn split

theorem FilePath.mem_pieces_join {base : FilePath} {relative piece : String}
    (below : (⟨relative⟩ : FilePath).isAbsolute = false)
    (mem : piece ∈ (⟨relative⟩ : FilePath).pieces) : piece ∈ (base.join relative).pieces := by
  obtain ⟨letters, piece, rfl⟩ := List.mem_map.1 mem
  refine List.mem_map_of_mem ?_
  have after (before : List Char) : letters ∈ (before ++ '/' :: relative.toList).splitOn '/' := by
    rw [List.splitOn_append_cons_self]
    exact List.mem_append_right _ piece
  unfold join
  rw [below, if_neg Bool.false_ne_true]
  split
  next ends =>
    show letters ∈ (base.text ++ relative).toList.splitOn '/'
    rcases Bool.or_eq_true_iff.1 ends with empty | slash
    · rw [String.toList_append, String.isEmpty_iff.1 empty]
      exact piece
    · obtain ⟨before, split⟩ := List.getLast?_eq_some_iff.1 (eq_of_beq slash)
      rw [String.toList_append, split, List.append_assoc]
      exact after before
  next =>
    show letters ∈ (base.text ++ "/" ++ relative).toList.splitOn '/'
    rw [String.toList_append, String.toList_append, List.append_assoc]
    exact after base.text.toList

/-- The path is one that can be looked for: it holds no character that ends a path, and is
not too long. -/
structure FilePath.Admissible (path : FilePath) : Prop where
  unended : path.text.toList.contains '\x00' = false
  short : path.text.utf8ByteSize ≤ FileTree.pathLimit

namespace Place

variable {place : Place} {name : String}

/-- The place consists of names. -/
def Named (place : Place) : Prop :=
  ∀ name ∈ place, IsName name

theorem named_nil : Named [] :=
  fun _ h => nomatch h

/-- The names of a path are names. -/
theorem named_names (path : FilePath) : Named path.names := by
  intro name mem
  obtain ⟨component, mem, spelled⟩ := List.mem_filterMap.1 mem
  cases component <;> cases spelled
  exact FilePath.isName_of_mem_components mem

theorem Named.append (h : place.Named) (named : IsName name) : Named (place ++ [name]) := by
  intro other mem
  rcases List.mem_append.1 mem with mem | mem
  · exact h other mem
  · rw [List.mem_singleton.1 mem]
    exact named

theorem Named.dropLast (h : place.Named) : Named place.dropLast :=
  fun name mem => h name (List.dropLast_subset _ mem)

theorem toList_path (place : Place) :
    place.path.text.toList = '/' :: ['/'].intercalate (place.map String.toList) := by
  simp [path]

theorem isAbsolute_path (place : Place) : place.path.isAbsolute = true := by
  simp [FilePath.isAbsolute, toList_path]

/-- A name is written as it is. -/
theorem ofPiece_name (h : IsName name) : Component.ofPiece name.toList = some (.name name) := by
  obtain ⟨nonempty, current, parent, -⟩ := h
  have skipped : ¬(name.toList = [] ∨ name.toList = ['.']) := by
    rintro (eq | eq)
    · exact nonempty (String.toList_inj.1 eq)
    · exact current (String.toList_inj.1 eq)
  have up : name.toList ≠ ['.', '.'] := fun eq => parent (String.toList_inj.1 eq)
  rw [Component.ofPiece, if_neg skipped, if_neg up, String.ofList_toList]

section

variable (h : place.Named)

include h

theorem filterMap_ofPiece :
    (place.map String.toList).filterMap Component.ofPiece = place.map Component.name := by
  induction place with
  | nil => rfl
  | cons name rest ih =>
    rw [List.map_cons, List.filterMap_cons, ofPiece_name (h name List.mem_cons_self),
      ih fun other mem => h other (List.mem_cons_of_mem _ mem), List.map_cons]

/-- The components of the path of a place are its names. -/
theorem components_path : place.path.components = .root :: place.map Component.name := by
  have split : (place.path.text.toList.splitOn '/').filterMap Component.ofPiece
      = place.map Component.name := by
    rw [toList_path, List.splitOn_cons_eq_if_modifyHead, if_pos (by simp)]
    cases place with
    | nil => rfl
    | cons name rest =>
      have free : ∀ letters ∈ (name :: rest).map String.toList, '/' ∉ letters := by
        intro letters mem
        obtain ⟨other, named, rfl⟩ := List.mem_map.1 mem
        exact (h other named).2.2.2
      rw [List.splitOn_intercalate _ free (by simp), List.filterMap_cons]
      exact filterMap_ofPiece h
  rw [FilePath.components, if_pos place.isAbsolute_path, split]
  rfl

theorem same_path_iff {other : Place} (h' : other.Named) :
    place.path.same other.path = true ↔ place = other := by
  rw [FilePath.same, beq_iff_eq, components_path h, components_path h', List.cons_inj_right]
  exact List.map_inj_right fun _ _ eq => Component.name.inj eq

theorem path_injective {other : Place} (h' : other.Named) (eq : place.path = other.path) :
    place = other :=
  (same_path_iff h h').1 (by rw [eq, FilePath.same, beq_iff_eq])

/-- Only the path of the root ends in a slash. -/
theorem getLast?_path_ne (below : place ≠ []) : place.path.text.toList.getLast? ≠ some '/' := by
  obtain ⟨above, last, rfl⟩ : ∃ above last, place = above ++ [last] :=
    ⟨_, _, (List.dropLast_concat_getLast below).symm⟩
  have named : IsName last := h last (by simp)
  have nonempty : last.toList ≠ [] := fun eq => named.1 (String.toList_inj.1 eq)
  have ends : ∃ front, (Place.path (above ++ [last])).text.toList = front ++ last.toList := by
    cases above with
    | nil => exact ⟨['/'], by simp [path]⟩
    | cons first others =>
      refine ⟨'/' :: ((String.intercalate "/" (first :: others)).toList ++ ['/']), ?_⟩
      rw [path, String.intercalate_append_of_ne_nil (by simp) (by simp)]
      simp
  obtain ⟨front, ends⟩ := ends
  rw [ends, List.getLast?_append, List.getLast?_eq_some_getLast nonempty, Option.some_or]
  intro slash
  exact named.2.2.2 (Option.some.inj slash ▸ List.getLast_mem nonempty)

/-- A name below the path of a place gives the path of the place below. -/
theorem join_path (named : IsName name) : place.path.join name = Place.path (place ++ [name]) := by
  have relative : (⟨name⟩ : FilePath).isAbsolute ≠ true := by
    intro absolute
    exact named.2.2.2 (List.mem_of_head? (beq_iff_eq.1 absolute))
  rw [FilePath.join, if_neg relative]
  by_cases root : place = []
  · subst root
    rw [if_pos (by decide)]
    simp [path]
  · have slash := getLast?_path_ne h root
    have nonempty : place.path.text.isEmpty = false := by
      simp [String.isEmpty_eq_false_iff, path]
    rw [if_neg (by simp [nonempty, slash]), path, path,
      String.intercalate_append_of_ne_nil root (by simp)]
    simp [String.append_assoc]

/-- Two files of one directory have the same path only if they have the same name. -/
theorem same_join_iff {other : String} (named : IsName name) (named' : IsName other) :
    (place.path.join name).same (place.path.join other) = true ↔ name = other := by
  rw [join_path h named, join_path h named',
    same_path_iff (h.append named) (h.append named'), List.append_cancel_left_eq]
  exact List.singleton_inj

end

end Place

namespace FileTree

variable {piece : String}

/-- Every entry stands at a place of names, and no two stand at the same place. -/
structure WellFormed (tree : FileTree) : Prop where
  named : ∀ entry ∈ tree.entries, Place.Named entry.1
  distinct : (tree.entries.map Prod.fst).Nodup

variable {tree : FileTree} {ending : Ending} {links : Nat} {place result : Place}
  {way shorter : List String} {path : FilePath} {name : String}

/-- The piece of a way is looked up: it goes neither nowhere nor up, and is not too long. -/
structure IsStep (piece : String) : Prop where
  moves : ¬ (piece = "" ∨ piece = ".")
  down : piece ≠ ".."
  short : piece.utf8ByteSize ≤ nameLimit

theorem IsStep.isName (h : IsStep piece) (free : '/' ∉ piece.toList) : IsName piece :=
  ⟨fun eq => h.moves (.inl eq), fun eq => h.moves (.inr eq), h.down, free⟩

/-- The way leads from one place to another, past at most so many links. -/
inductive Leads (tree : FileTree) (ending : Ending) : Nat → Place → List String → Place → Prop
  | arrived {links place : _} : Leads tree ending links place [] place
  | idle {links place result piece rest : _}
    (here : tree.entryAt? place = some .directory) (skipped : piece = "" ∨ piece = ".")
    (onward : Leads tree ending links place rest result) :
    Leads tree ending links place (piece :: rest) result
  | up {links place result rest : _}
    (here : tree.entryAt? place = some .directory)
    (onward : Leads tree ending links place.dropLast rest result) :
    Leads tree ending links place (".." :: rest) result
  | last {links place piece : _}
    (here : tree.entryAt? place = some .directory) (step : IsStep piece)
    (ends : ending ≠ .found) : Leads tree ending links place [piece] (place ++ [piece])
  | link {links place result piece rest target : _}
    (here : tree.entryAt? place = some .directory) (step : IsStep piece)
    (there : tree.entryAt? (place ++ [piece]) = some (.link target))
    (onward : Leads tree ending links (if target.isAbsolute then [] else place)
      (target.pieces ++ rest) result) :
    Leads tree ending (links + 1) place (piece :: rest) result
  | down {links place result piece rest entry : _}
    (here : tree.entryAt? place = some .directory) (step : IsStep piece)
    (there : tree.entryAt? (place ++ [piece]) = some entry)
    (solid : ∀ target, entry ≠ .link target)
    (onward : Leads tree ending links (place ++ [piece]) rest result) :
    Leads tree ending links place (piece :: rest) result

/-- How a way goes on at a link. -/
def pastLink (tree : FileTree) (ending : Ending) : Nat → Place → List String →
    Except ReadFault Place
  | 0 => fun _ _ => .error .tooManyLinks
  | links + 1 => tree.follow ending links

theorem follow_eq (links : Nat) :
    tree.follow ending links = tree.followPieces ending (tree.pastLink ending links) := by
  cases links <;> rfl

theorem leads_of_follow (h : tree.follow ending links place way = .ok result) :
    tree.Leads ending links place way result := by
  induction links using Nat.strongRecOn generalizing place way result with
  | _ links past =>
    rw [follow_eq] at h
    induction way generalizing place with
    | nil => exact Except.ok.inj h ▸ .arrived
    | cons piece rest ih =>
      unfold followPieces at h
      split at h
      next => cases h
      next here =>
      replace here := not_not.1 here
      split at h
      next skipped => exact .idle here skipped (ih h)
      next moves =>
      split at h
      next up => exact up ▸ .up here (ih h)
      next down =>
      split at h
      next => cases h
      next short =>
      have step : IsStep piece := ⟨moves, down, Nat.not_lt.1 short⟩
      split at h
      next ends =>
        obtain ⟨rfl, rfl⟩ := ends
        exact Except.ok.inj h ▸ .last here step (by decide)
      split at h
      next =>
        split at h
        next ends =>
          obtain ⟨rfl, rfl⟩ := ends
          exact Except.ok.inj h ▸ .last here step (by decide)
        next => cases h
      next target there =>
        cases links with
        | zero => cases h
        | succ links => exact .link here step there (past links (Nat.lt_succ_self _) h)
      next solid there => exact .down here step there solid (ih h)

theorem Leads.follow (h : tree.Leads .found links place way result) :
    tree.follow .found links place way = .ok result := by
  induction h with
  | arrived => rw [follow_eq, followPieces]
  | idle here skipped onward ih =>
    rw [follow_eq, followPieces, if_neg (not_not_intro here), if_pos skipped, ← follow_eq, ih]
  | up here onward ih =>
    rw [follow_eq, followPieces, if_neg (not_not_intro here), if_neg (by decide), if_pos rfl,
      ← follow_eq, ih]
  | last here step ends => exact absurd rfl ends
  | link here step there onward ih =>
    rw [follow_eq, followPieces, if_neg (not_not_intro here), if_neg step.moves, if_neg step.down,
      if_neg (Nat.not_lt.2 step.short), if_neg (by rintro ⟨-, ⟨⟩⟩), there]
    exact ih
  | down here step there solid onward ih =>
    rw [follow_eq, followPieces, if_neg (not_not_intro here), if_neg step.moves, if_neg step.down,
      if_neg (Nat.not_lt.2 step.short), if_neg (by rintro ⟨-, ⟨⟩⟩), there]
    rw [follow_eq] at ih
    split
    next missing => cases missing
    next target link => exact absurd (Option.some.inj link) (solid target)
    next => exact ih

/-- A way leads from a place of names to a place of names. -/
theorem follow_named (start : place.Named) (free : ∀ piece ∈ way, '/' ∉ piece.toList)
    (h : tree.follow ending links place way = .ok result) : result.Named := by
  have leads := leads_of_follow h
  clear h
  induction leads with
  | arrived => exact start
  | idle _ _ _ ih => exact ih start (List.forall_mem_cons.1 free).2
  | up _ _ ih => exact ih start.dropLast (List.forall_mem_cons.1 free).2
  | last _ step _ => exact start.append (step.isName (List.forall_mem_cons.1 free).1)
  | link _ _ _ _ ih =>
    refine ih ?_ (List.forall_mem_append.2 ⟨?_, (List.forall_mem_cons.1 free).2⟩)
    · split
      · exact Place.named_nil
      · exact start
    · exact fun _ => FilePath.slash_not_mem_of_mem_pieces
  | down _ step _ _ _ ih =>
    obtain ⟨first, later⟩ := List.forall_mem_cons.1 free
    exact ih (start.append (step.isName first)) later

/-- A path that leads somewhere can be looked for. -/
theorem resolve_eq_ok (h : tree.resolve path = .ok place) :
    path.Admissible ∧ path.text ≠ "" ∧
      tree.follow .found linkLimit (tree.outset path) path.pieces = .ok place := by
  unfold resolve at h
  split at h
  next => cases h
  next unended =>
    split at h
    next => cases h
    next short =>
      split at h
      next => cases h
      next written => exact ⟨⟨eq_false_of_ne_true unended, Nat.not_lt.1 short⟩, written, h⟩

/-- A path leads to a place of names. -/
theorem follow_outset_named
    (h : tree.follow .found links (tree.outset path) path.pieces = .ok place) : place.Named := by
  refine follow_named ?_ (fun _ => FilePath.slash_not_mem_of_mem_pieces) h
  unfold outset
  split
  · exact Place.named_nil
  · exact Place.named_names _

theorem directory?_eq_some (h : tree.directory? path = some place) :
    tree.resolve path = .ok place ∧ tree.entryAt? place = some .directory := by
  unfold directory? at h
  split at h
  next found resolved =>
    split at h
    next there => exact Option.some.inj h ▸ ⟨resolved, there⟩
    next => cases h
  next => cases h

theorem directory?_named (h : tree.directory? path = some place) : place.Named :=
  follow_outset_named (resolve_eq_ok (directory?_eq_some h).1).2.2

theorem mem_of_entryAt? {entry : Entry} (below : place ≠ [])
    (h : tree.entryAt? place = some entry) : (place, entry) ∈ tree.entries := by
  rw [entryAt?, if_neg below] at h
  obtain ⟨before, after, split, -⟩ := List.lookup_eq_some_iff.1 h
  rw [split]
  simp

/-- A name on a way that leads somewhere is the name of an entry. -/
theorem follow_enters (named : IsName name)
    (h : tree.follow .found links place way = .ok result) (mem : name ∈ way) :
    ∃ entry ∈ tree.entries, name ∈ entry.1 := by
  have leads := leads_of_follow h
  clear h
  induction leads with
  | arrived => cases mem
  | idle _ skipped _ ih =>
    refine ih ((List.mem_cons.1 mem).resolve_left ?_)
    rintro rfl
    exact skipped.elim named.1 named.2.1
  | up _ _ ih => exact ih ((List.mem_cons.1 mem).resolve_left named.2.2.1)
  | last _ _ ends => exact absurd rfl ends
  | link _ _ there _ ih =>
    rcases List.mem_cons.1 mem with rfl | mem
    · exact ⟨_, mem_of_entryAt? (by simp) there, by simp⟩
    · exact ih (List.mem_append_right _ mem)
  | down _ _ there _ _ ih =>
    rcases List.mem_cons.1 mem with rfl | mem
    · exact ⟨_, mem_of_entryAt? (by simp) there, by simp⟩
    · exact ih mem

/-- A path leads to a directory only past entries with its names. -/
theorem directory?_enters (named : IsName name) (h : tree.directory? path = some place)
    (mem : name ∈ path.pieces) : ∃ entry ∈ tree.entries, name ∈ entry.1 :=
  follow_enters named (resolve_eq_ok (directory?_eq_some h).1).2.2 mem

/-- A directory is the root or an entry. -/
theorem directory?_mem (h : tree.directory? path = some place) :
    place = [] ∨ (place, .directory) ∈ tree.entries := by
  by_cases root : place = []
  · exact .inl root
  · exact .inr (mem_of_entryAt? root (directory?_eq_some h).2)

/-- The name of an entry that is a file of a directory. -/
def fileNameIn? (place : Place) (entry : Place × Entry) : Option String :=
  match place.isPrefixOf? entry.1 with
  | some [name] => if entry.2.isFile then some name else none
  | _ => none

theorem eq_append_of_fileNameIn? {entry : Place × Entry} (h : fileNameIn? place entry = some name) :
    entry.1 = place ++ [name] := by
  unfold fileNameIn? at h
  split at h
  next only below =>
    split at h
    next => exact Option.some.inj h ▸ (List.isPrefixOf?_eq_some_iff_append_eq.1 below).symm
    next => cases h
  next => cases h

theorem filesIn_perm (tree : FileTree) (place : Place) :
    (tree.filesIn place).Perm (tree.entries.filterMap (fileNameIn? place)) :=
  List.mergeSort_perm _ _

/-- The files of a directory have names of their own. -/
theorem nodup_filesIn (h : tree.WellFormed) (place : Place) : (tree.filesIn place).Nodup := by
  rw [(tree.filesIn_perm place).nodup_iff]
  refine List.Pairwise.filterMap _ ?_ (List.pairwise_map.1 h.distinct)
  intro entry other differ name found name' found' eq
  rw [eq_append_of_fileNameIn? found, eq_append_of_fileNameIn? found', eq] at differ
  exact differ rfl

theorem isName_of_mem_filesIn (h : tree.WellFormed) (mem : name ∈ tree.filesIn place) :
    IsName name := by
  rw [(tree.filesIn_perm place).mem_iff, List.mem_filterMap] at mem
  obtain ⟨entry, listed, found⟩ := mem
  refine h.named entry listed name ?_
  rw [eq_append_of_fileNameIn? found]
  exact List.mem_append_right _ List.mem_cons_self

theorem wellFormed_empty : WellFormed {} :=
  ⟨fun _ h => (nomatch h), List.nodup_nil⟩

theorem WellFormed.set (h : tree.WellFormed) (named : place.Named) (entry : Entry) :
    (tree.set place entry).WellFormed where
  named := by
    intro other mem
    rcases List.mem_cons.1 mem with rfl | mem
    · exact named
    · exact h.named other (List.mem_filter.1 mem).1
  distinct := by
    rw [FileTree.set, List.map_cons, List.nodup_cons]
    refine ⟨?_, h.distinct.sublist (List.filter_sublist.map _)⟩
    intro mem
    obtain ⟨other, kept, eq⟩ := List.mem_map.1 mem
    simp [eq] at kept

/-- A single piece that leads to nothing is a name. -/
theorem isName_of_follow_missing (free : '/' ∉ piece.toList)
    (h : tree.follow ending links place [piece] = .error .missing) : IsName piece := by
  rw [follow_eq] at h
  unfold followPieces at h
  split at h
  next => cases h
  split at h
  next => cases h
  split at h
  next => cases h
  next skipped up => exact ⟨fun eq => skipped (.inl eq), fun eq => skipped (.inr eq), up, free⟩

theorem WellFormed.makeDirectories {pieces : List String} (h : tree.WellFormed)
    (named : place.Named) (free : ∀ piece ∈ pieces, '/' ∉ piece.toList) :
    (tree.makeDirectories place pieces).WellFormed := by
  induction pieces generalizing tree place with
  | nil => exact h
  | cons piece rest ih =>
    have first := free piece List.mem_cons_self
    have later : ∀ piece ∈ rest, '/' ∉ piece.toList :=
      fun other mem => free other (List.mem_cons_of_mem _ mem)
    unfold FileTree.makeDirectories
    split
    next led =>
      exact ih h (follow_named named (fun other mem => List.mem_singleton.1 mem ▸ first) led) later
    next missing =>
      have below := named.append (isName_of_follow_missing first missing)
      exact ih (h.set below _) below later
    next => exact h

/-- Whatever is put into a tree, and wherever, the tree stays well-formed. -/
theorem WellFormed.put (h : tree.WellFormed) (path : FilePath) (entry : Entry) :
    (tree.put path entry).WellFormed := by
  have free : ∀ piece ∈ path.pieces, '/' ∉ piece.toList :=
    fun _ => FilePath.slash_not_mem_of_mem_pieces
  have above := h.makeDirectories Place.named_nil (fun piece mem =>
    free piece (List.dropLast_subset _ mem))
  unfold FileTree.put
  split
  next => exact h.makeDirectories Place.named_nil free
  next =>
    dsimp only
    split
    next led => exact above.set (follow_named Place.named_nil free led) entry
    next => exact above

/-! ## Paths with the same components -/

/-- The second way is the first one without some of the pieces that lead nowhere. -/
inductive Shortens : List String → List String → Prop
  | nil : Shortens [] []
  | keep {way shorter : List String} (piece : String) (rest : Shortens way shorter) :
    Shortens (piece :: way) (piece :: shorter)
  | skip {way shorter : List String} {piece : String} (idle : piece = "" ∨ piece = ".")
    (rest : Shortens way shorter) : Shortens (piece :: way) shorter

theorem Shortens.append (h : Shortens way shorter) (pieces : List String) :
    Shortens (pieces ++ way) (pieces ++ shorter) := by
  induction pieces with
  | nil => exact h
  | cons piece rest ih => exact ih.keep piece

/-- The pieces of a way that lead somewhere. -/
def moves (way : List String) : List String :=
  way.filter fun piece => piece ≠ "" ∧ piece ≠ "."

theorem shortens_moves (way : List String) : Shortens way (moves way) := by
  induction way with
  | nil => exact .nil
  | cons piece rest ih =>
    by_cases idle : piece = "" ∨ piece = "."
    · rw [moves, List.filter_cons_of_neg]
      · exact ih.skip idle
      · simpa [Classical.or_iff_not_imp_left] using idle
    · rw [moves, List.filter_cons_of_pos]
      · exact ih.keep piece
      · simpa [not_or] using idle

/-- A piece that leads somewhere is kept. -/
theorem Shortens.of_cons (moves : ¬ (piece = "" ∨ piece = "."))
    (h : Shortens (piece :: way) shorter) :
    ∃ rest, shorter = piece :: rest ∧ Shortens way rest := by
  cases h with
  | keep _ rest => exact ⟨_, rfl, rest⟩
  | skip idle _ => exact absurd idle moves

/-- A shorter way leads to the same place. -/
theorem follow_shortens (shortens : Shortens way shorter)
    (h : tree.follow .found links place way = .ok result) :
    tree.follow .found links place shorter = .ok result := by
  have leads := leads_of_follow h
  clear h
  refine Leads.follow ?_
  induction leads generalizing shorter with
  | arrived =>
    cases shortens
    exact .arrived
  | idle here skipped _ ih =>
    cases shortens with
    | keep _ rest => exact .idle here skipped (ih rest)
    | skip _ rest => exact ih rest
  | up here _ ih =>
    obtain ⟨_, rfl, rest⟩ := shortens.of_cons (by decide)
    exact .up here (ih rest)
  | last _ _ ends => exact absurd rfl ends
  | link here step there _ ih =>
    obtain ⟨_, rfl, rest⟩ := shortens.of_cons step.moves
    exact .link here step there (ih (rest.append _))
  | down here step there solid _ ih =>
    obtain ⟨_, rfl, rest⟩ := shortens.of_cons step.moves
    exact .down here step there solid (ih rest)

/-- The components of a path are spelled like its pieces that lead somewhere. -/
theorem moves_eq (pieces : List (List Char)) :
    moves (pieces.map String.ofList) = (pieces.filterMap Component.ofPiece).map Component.text := by
  induction pieces with
  | nil => rfl
  | cons piece rest ih =>
    unfold moves at ih ⊢
    rw [List.map_cons, List.filter_cons, ih, List.filterMap_cons, Component.ofPiece]
    have spells : ∀ letters, String.ofList piece = String.ofList letters ↔ piece = letters :=
      fun letters => String.ofList_inj
    have empty := spells []
    have dot := spells ['.']
    by_cases idle : piece = [] ∨ piece = ['.']
    · rcases idle with rfl | rfl <;> rfl
    · have moving : String.ofList piece ≠ "" ∧ String.ofList piece ≠ "." :=
        ⟨fun eq => idle (.inl (empty.1 eq)), fun eq => idle (.inr (dot.1 eq))⟩
      rw [if_pos (decide_eq_true moving), if_neg idle]
      by_cases up : piece = ['.', '.']
      · rw [if_pos up, up]
        rfl
      · rw [if_neg up]
        rfl

theorem moves_pieces (path : FilePath) : moves path.pieces = path.steps.map Component.text :=
  moves_eq _

variable {other : FilePath}

theorem outset_of_head (same : path.components.head? = other.components.head?) :
    tree.outset path = tree.outset other := by
  have start : path.isAbsolute = other.isAbsolute := by
    rw [Bool.eq_iff_iff, FilePath.isAbsolute_iff, same, ← FilePath.isAbsolute_iff]
  rw [outset, outset, start]

/-- Paths with the same components lead to the same place. -/
theorem resolve_of_same {place' : Place} (same : path.components = other.components)
    (h : tree.resolve path = .ok place) (h' : tree.resolve other = .ok place') :
    place = place' := by
  have short := follow_shortens (shortens_moves path.pieces) (resolve_eq_ok h).2.2
  have short' := follow_shortens (shortens_moves other.pieces) (resolve_eq_ok h').2.2
  rw [moves_pieces, FilePath.steps_eq, same, ← FilePath.steps_eq, ← moves_pieces,
    outset_of_head (congrArg List.head? same), short'] at short
  exact (Except.ok.inj short).symm

/-- What is read is the text at the place that the path leads to. -/
theorem read_eq_ok {content : String} (h : tree.read path = .ok content) :
    ∃ place, tree.resolve path = .ok place ∧ tree.entryAt? place = some (.text content) := by
  unfold read at h
  cases led : tree.resolve path with
  | error =>
    rw [led] at h
    cases h
  | ok place =>
    rw [led] at h
    dsimp only [bind, Except.bind] at h
    split at h <;> cases h
    next there => exact ⟨place, rfl, there⟩

/-- What is read stands in the tree. -/
theorem mem_of_read {content : String} (h : tree.read path = .ok content) :
    ∃ place, (place, .text content) ∈ tree.entries := by
  obtain ⟨place, -, there⟩ := read_eq_ok h
  refine ⟨place, mem_of_entryAt? ?_ there⟩
  rintro rfl
  cases there

theorem read_of_same {content content' : String} (same : path.components = other.components)
    (h : tree.read path = .ok content) (h' : tree.read other = .ok content') :
    content = content' := by
  obtain ⟨place, led, there⟩ := read_eq_ok h
  obtain ⟨place', led', there'⟩ := read_eq_ok h'
  cases resolve_of_same same led led'
  cases there.symm.trans there'
  rfl

end FileTree

end GoAtlas
