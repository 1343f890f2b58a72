import Mathlib.Data.List.Induction
import GoAtlas.Proofs.FilePath

/-!
# Ways down a tree

A tree is closed if every entry stands in a directory. Then the names from one directory
down to another lead there, with no link on the way, from wherever the first was reached
(`follow_append`). And a directory is found at every path with the components of a path to
it, whatever empty pieces and `.` are written in between: these only ask for a directory
where they stand (`follow_lengthens`). So the directory of a place is found at any path that
names its way from a directory above (`directory?_below`).
-/

namespace GoAtlas

/-- A path above one that can be looked for can be looked for. -/
theorem FilePath.Admissible.of_join {base : FilePath} {relative : String}
    (below : (⟨relative⟩ : FilePath).isAbsolute = false) (h : (base.join relative).Admissible) :
    base.Admissible := by
  obtain ⟨unended, short⟩ := h
  obtain ⟨rest, text⟩ : ∃ rest, (base.join relative).text = base.text ++ rest := by
    rw [join, below, if_neg Bool.false_ne_true]
    split
    · exact ⟨relative, rfl⟩
    · exact ⟨"/" ++ relative, String.append_assoc ..⟩
  rw [text, String.toList_append, List.contains_append, Bool.or_eq_false_iff] at unended
  rw [text, String.utf8ByteSize_append] at short
  exact ⟨unended.1, Nat.le_of_add_right_le short⟩

theorem Component.map_text_name (names : List String) :
    (names.map Component.name).map Component.text = names := by
  rw [List.map_map]
  exact List.map_id names

namespace FileTree

variable {tree : FileTree} {links : Nat} {place result : Place} {names way : List String}

/-- Every entry stands in a directory, under names that are not too long. -/
structure Closed (tree : FileTree) : Prop extends WellFormed tree where
  parents : ∀ entry ∈ tree.entries, tree.entryAt? entry.1.dropLast = some .directory
  short : ∀ entry ∈ tree.entries, ∀ name ∈ entry.1, name.utf8ByteSize ≤ nameLimit

theorem moves_of_named (named : Place.Named names) : moves names = names := by
  refine List.filter_eq_self.2 fun name mem => ?_
  exact decide_eq_true ⟨(named name mem).1, (named name mem).2.1⟩

/-- A directory has a path that is admissible if a file in it can be read. -/
theorem admissible_of_read {dir : FilePath} {name content : String} (named : IsName name)
    (read : tree.read (dir.join name) = .ok content) : dir.Admissible := by
  have below : (⟨name⟩ : FilePath).isAbsolute = false :=
    eq_false_of_ne_true fun absolute => named.2.2.2 (List.mem_of_head? (eq_of_beq absolute))
  cases resolved : tree.resolve (dir.join name) with
  | ok other => exact (resolve_eq_ok resolved).1.of_join below
  | error fault =>
    rw [FileTree.read, resolved] at read
    cases read

/-- A directory is found at a path that leads there and can be looked for. -/
theorem directory?_of_follow {path : FilePath} (written : path.text ≠ "")
    (admissible : path.Admissible)
    (led : tree.follow .found linkLimit (tree.outset path) path.pieces = .ok place)
    (there : tree.entryAt? place = some .directory) : tree.directory? path = some place := by
  rw [directory?, resolve, admissible.unended, if_neg Bool.false_ne_true,
    if_neg (Nat.not_lt.2 admissible.short), if_neg written, led]
  exact if_pos there

theorem Leads.idles (here : tree.entryAt? place = some .directory) {pieces : List String}
    (skipped : ∀ piece ∈ pieces, piece = "" ∨ piece = ".")
    (h : tree.Leads .found links place way result) :
    tree.Leads .found links place (pieces ++ way) result := by
  induction pieces with
  | nil => exact h
  | cons piece rest ih =>
    obtain ⟨first, later⟩ := List.forall_mem_cons.1 skipped
    exact .idle here first (ih later)

theorem Shortens.skipped (h : Shortens way []) : ∀ piece ∈ way, piece = "" ∨ piece = "." := by
  generalize none : [] = shorter at h
  induction h with
  | nil => exact List.forall_mem_nil _
  | keep => cases none
  | skip idle _ ih => exact List.forall_mem_cons.2 ⟨idle, ih none⟩

theorem Shortens.to_cons {piece : String} (h : Shortens way (piece :: names)) :
    ∃ before rest, way = before ++ piece :: rest ∧
      (∀ piece ∈ before, piece = "" ∨ piece = ".") ∧ Shortens rest names := by
  generalize eq : piece :: names = shorter at h
  induction h with
  | nil => cases eq
  | keep piece rest ih =>
    cases eq
    exact ⟨[], _, rfl, List.forall_mem_nil _, rest⟩
  | skip idle _ ih =>
    obtain ⟨before, rest, rfl, skipped, shortens⟩ := ih eq
    exact ⟨_ :: before, rest, rfl, List.forall_mem_cons.2 ⟨idle, skipped⟩, shortens⟩

/-- Pieces that lead nowhere may be written wherever there is a directory. -/
theorem follow_lengthens (shortens : Shortens way names)
    (there : tree.entryAt? result = some .directory)
    (h : tree.follow .found links place names = .ok result) :
    tree.follow .found links place way = .ok result := by
  have leads := leads_of_follow h
  clear h
  refine Leads.follow ?_
  induction leads generalizing way with
  | arrived => exact List.append_nil way ▸ Leads.idles there shortens.skipped .arrived
  | idle here skipped _ ih =>
    obtain ⟨before, rest, rfl, idles, shortens⟩ := shortens.to_cons
    exact .idles here idles (.idle here skipped (ih shortens there))
  | up here _ ih =>
    obtain ⟨before, rest, rfl, idles, shortens⟩ := shortens.to_cons
    exact .idles here idles (.up here (ih shortens there))
  | last _ _ ends => exact absurd rfl ends
  | link here step target _ ih =>
    obtain ⟨before, rest, rfl, idles, shortens⟩ := shortens.to_cons
    exact .idles here idles (.link here step target (ih (shortens.append _) there))
  | down here step entry solid _ ih =>
    obtain ⟨before, rest, rfl, idles, shortens⟩ := shortens.to_cons
    exact .idles here idles (.down here step entry solid (ih shortens there))

namespace Closed

variable (h : tree.Closed)

include h

theorem named_of_entryAt? {entry : Entry} (there : tree.entryAt? place = some entry) :
    place.Named ∧ ∀ name ∈ place, name.utf8ByteSize ≤ nameLimit := by
  by_cases root : place = []
  · rw [root]
    exact ⟨Place.named_nil, List.forall_mem_nil _⟩
  · have mem := mem_of_entryAt? root there
    exact ⟨h.named _ mem, h.short _ mem⟩

/-- Above a directory there are directories. -/
theorem above (there : tree.entryAt? (place ++ names) = some .directory) :
    tree.entryAt? place = some .directory := by
  induction names using List.reverseRecOn with
  | nil => rwa [List.append_nil] at there
  | append_singleton names name ih =>
    rw [← List.append_assoc] at there
    have parent := h.parents _ (mem_of_entryAt? (List.append_ne_nil_of_right_ne_nil _
      (List.cons_ne_nil name [])) there)
    rw [List.dropLast_concat] at parent
    exact ih parent

/-- The names of a directory below lead there. -/
theorem follow_down (there : tree.entryAt? (place ++ moves way) = some .directory) :
    tree.follow .found links place way = .ok (place ++ moves way) := by
  refine Leads.follow ?_
  induction way generalizing place with
  | nil => exact (List.append_nil place).symm ▸ .arrived
  | cons piece rest ih =>
    have here := h.above there
    by_cases idle : piece = "" ∨ piece = "."
    · have same : moves (piece :: rest) = moves rest := by
        rw [moves, List.filter_cons_of_neg]
        · rfl
        · simpa [Classical.or_iff_not_imp_left] using idle
      rw [same] at there ⊢
      exact .idle here idle (ih there)
    · have next : moves (piece :: rest) = piece :: moves rest := by
        rw [moves, List.filter_cons_of_pos]
        · rfl
        · simpa [not_or] using idle
      rw [next] at there ⊢
      obtain ⟨named, short⟩ := h.named_of_entryAt? there
      have mem : piece ∈ place ++ piece :: moves rest :=
        List.mem_append_right _ List.mem_cons_self
      have onward : place ++ piece :: moves rest = place ++ [piece] ++ moves rest :=
        List.append_cons ..
      rw [onward] at there ⊢
      exact .down here ⟨idle, (named piece mem).2.2.1, short piece mem⟩ (h.above there)
        (fun _ eq => by cases eq) (ih there)

/-- So does every path with these names. -/
theorem follow_path {path : FilePath}
    (components : path.components = .root :: place.map Component.name)
    (there : tree.entryAt? place = some .directory) :
    tree.follow .found links (tree.outset path) path.pieces = .ok place := by
  have way : moves path.pieces = place := by
    rw [moves_pieces, FilePath.steps_eq, components,
      List.filter_cons_of_neg Bool.false_ne_true, Component.filter_name, Component.map_text_name]
  have down := @follow_down tree links [] path.pieces h
  rw [way] at down
  rw [outset, if_pos (FilePath.isAbsolute_of_components components)]
  exact down there

/-- From wherever a directory was reached, names lead on to a directory below it. -/
theorem follow_append {start : Place}
    (there : tree.entryAt? (place ++ names) = some .directory)
    (led : tree.follow .found links start way = .ok place) :
    tree.follow .found links start (way ++ names) = .ok (place ++ names) := by
  have leads := leads_of_follow led
  clear led
  refine Leads.follow ?_
  induction leads with
  | @arrived links place =>
    have named : Place.Named names := fun name mem =>
      (h.named_of_entryAt? there).1 name (List.mem_append_right _ mem)
    have same := moves_of_named named
    rw [← same] at there
    have down := leads_of_follow (@follow_down tree links place names h there)
    rwa [same] at down
  | idle here skipped _ ih => exact .idle here skipped (ih there)
  | up here _ ih => exact .up here (ih there)
  | last _ _ ends => exact absurd rfl ends
  | link here step target _ ih =>
    exact .link here step target (List.append_assoc .. ▸ ih there)
  | down here step entry solid _ ih => exact .down here step entry solid (ih there)

/-- A directory is found at every path that names the way to it from one above. -/
theorem directory?_below {base path : FilePath} (written : base.text ≠ "")
    (led : tree.follow .found linkLimit (tree.outset base) base.pieces = .ok place)
    (components : path.components = base.components ++ names.map Component.name)
    (there : tree.entryAt? (place ++ names) = some .directory) (admissible : path.Admissible) :
    tree.directory? path = some (place ++ names) := by
  have ways : moves path.pieces = moves base.pieces ++ names := by
    rw [moves_pieces, moves_pieces, FilePath.steps_eq, components, List.filter_append,
      Component.filter_name, ← FilePath.steps_eq, List.map_append, Component.map_text_name]
  have first := mt FilePath.components_eq_nil_iff.1 written
  have start : tree.outset path = tree.outset base := by
    refine outset_of_head ?_
    rw [components, List.head?_append_of_ne_nil _ first]
  have short := h.follow_append there (follow_shortens (shortens_moves base.pieces) led)
  rw [← ways, ← start] at short
  refine directory?_of_follow ?_ admissible (follow_lengthens (shortens_moves path.pieces) there
    short) there
  rw [ne_eq, ← FilePath.components_eq_nil_iff, components]
  exact List.append_ne_nil_of_left_ne_nil first _

theorem eq_of_resolve_path {other : Place} (there : tree.entryAt? place = some .directory)
    (resolved : tree.resolve place.path = .ok other) : other = place := by
  have components := Place.components_path (h.named_of_entryAt? there).1
  obtain ⟨-, -, led⟩ := resolve_eq_ok resolved
  rw [h.follow_path components there] at led
  exact (Except.ok.inj led).symm

theorem directory?_path (there : tree.entryAt? place = some .directory)
    (admissible : place.path.Admissible) : tree.directory? place.path = some place := by
  have components := Place.components_path (h.named_of_entryAt? there).1
  refine directory?_of_follow ?_ admissible (h.follow_path components there) there
  rw [ne_eq, ← FilePath.components_eq_nil_iff, components]
  exact List.cons_ne_nil _ _

end Closed

end FileTree

end GoAtlas
