import GoAtlas.Proofs.Session.Checks
import GoAtlas.Proofs.Session.Loaded

/-!
# The import graph

A package imports another one where a file of it names a location, other than the
path of the package itself, that leads to the other one. The graph is read off the
file tree. It is a graph of the packages that can be loaded: those that stand in one
directory, with at least one file, and whose files can all be read.

A session looks a location up in what it located before. There a package stands
under the locations it was asked for at and under its canonical path (`Traced`), so a
location that is spelled like the path of another package may be taken for that one.
Apart from this, what was asked before makes no difference: a location leads to its
package (`Resolves.loaded_cases`), and the imports of a package that was loaded are those
of the graph (`Imports.exists_literal`). A location is looked up and read without asking for a
check (`returns_loaded`).
-/

namespace GoAtlas

variable {U : Type}

namespace SourceIndex

/-- The imports of a package are those of its files. -/
def Indexed (index : SourceIndex U) : Prop :=
  ∀ package literal, literal ∈ index.importsOf package ↔
    ∃ file ∈ index.filesOf package, literal ∈ file.imports

theorem indexed_empty : Indexed ({} : SourceIndex U) := by
  intro package literal
  simp [importsOf, filesOf]

/-- A new file adds its imports to those of its package. -/
theorem mem_importsOf_insert {index : SourceIndex U} {package : String} {file : SourceFile U}
    (fresh : index.containsFile package file.path = false) (other literal : String) :
    literal ∈ (index.insert package file).importsOf other ↔
      literal ∈ index.importsOf other ∨ other = package ∧ literal ∈ file.imports := by
  have imports : (index.insert package file).imports = index.imports.insert package
      (NameSet.addAll ((index.imports.get? package).getD ∅) file.imports) := by
    rw [SourceIndex.insert, fresh]
    rfl
  rw [importsOf, imports, Table.get?_insert]
  by_cases same : other = package
  · have before : NameSet.toList ((index.imports.get? package).getD ∅) =
        index.importsOf package := by
      rw [importsOf]
      cases index.imports.get? package <;> rfl
    rw [if_pos same, Option.map_some, Option.getD_some, NameSet.mem_toList_addAll, before, same]
    simp [or_comm]
  · simp [same, importsOf]

theorem Indexed.insert {index : SourceIndex U} (h : index.Indexed) (package : String)
    (file : SourceFile U) : (index.insert package file).Indexed := by
  cases fresh : index.containsFile package file.path with
  | true => simpa [SourceIndex.insert, fresh] using h
  | false =>
    intro other literal
    rw [mem_importsOf_insert fresh, filesOf_insert fresh, h]
    split
    · next same => simp [same, or_and_right, exists_or]
    · next apart => simp [apart]

end SourceIndex

/-- The failure is not a check without end. -/
def Failure.Ends : Failure → Prop
  | .unending => False
  | _ => True

theorem Failure.Ends.ne {failure : Failure} (h : failure.Ends) : failure ≠ .unending := by
  rintro rfl
  exact h

namespace Session

variable {env : Environment U} {roots : Roots} {origin session : Session U}
  {location package target : String} {located other : Located}

/-- A package stands under a location that it is found at, or under its canonical
path, and the imports of a package are those of its files. -/
structure Traced (env : Environment U) (roots : Roots) (origin session : Session U) : Prop where
  tags : session.tags = origin.tags
  located : ∀ location located, session.located.get? location = some located →
    roots.locate env.tree origin.tags location = located.answer ∨ location = located.package
  indexed : session.sources.Indexed

theorem traced_start (env : Environment U) (roots : Roots) (config : Config) :
    Traced env roots (start config) (start config) where
  tags := rfl
  located _ _ there := nomatch there
  indexed := SourceIndex.indexed_empty

theorem Traced.remember (h : Traced env roots origin session)
    (found : roots.locate env.tree origin.tags location = located.answer) :
    Traced env roots origin (session.remember location located) where
  tags := h.tags
  located key old there := by
    rcases known_of_remember there with before | ⟨rfl, rfl | rfl⟩
    · exact h.located key old before
    · exact .inl found
    · exact .inr rfl
  indexed := h.indexed

theorem steady_traced (search : env.locator = .search roots) :
    Steady env (Traced env roots origin) where
  remember session location located h found := by
    rw [search, h.tags] at found
    exact h.remember (Roots.answer_of_locate found)
  settle _ _ _ h _ := ⟨h.tags, h.located, h.indexed⟩
  record _ _ h := ⟨h.tags, h.located, h.indexed⟩
  addFile _ package file h _ := ⟨h.tags, h.located, h.indexed.insert package file⟩

/-! ## The graph -/

/-- The package can be loaded from its directory: it is the only one that goes under
the path of the package, and all files of it that take part can be read. -/
structure Loadable (env : Environment U) (roots : Roots) (origin : Session U) (package : String)
    (located : Located) : Prop where
  leads : roots.Leads env.tree origin.tags located
  canonical : located.package = package
  alone : ∀ other, roots.Leads env.tree origin.tags other →
    other.package = package → other.dir = located.dir
  selects : located.selection origin.config.includeTestFiles ≠ []
  readable : ∀ name ∈ located.selection origin.config.includeTestFiles,
    (env.file? (located.dir.join name)).isSome = true

/-- The location leads to the package, and is the path of no other one. -/
structure Resolves (env : Environment U) (roots : Roots) (origin : Session U)
    (location package : String) : Prop where
  found : ∃ located, roots.locate env.tree origin.tags location = .ok located ∧
    located.package = package
  own : ∀ other, roots.Leads env.tree origin.tags other →
    other.package = location → location = package

/-- A file of the package names a location, other than the path of the package, that
leads to the target. Both can be loaded. -/
def Imports (env : Environment U) (roots : Roots) (origin : Session U)
    (package target : String) : Prop :=
  ∃ located other, Loadable env roots origin package located ∧
    Loadable env roots origin target other ∧
    ∃ name ∈ located.selection origin.config.includeTestFiles, ∃ file,
      env.file? (located.dir.join name) = some file ∧
      ∃ literal ∈ file.imports, literal ≠ package ∧ Resolves env roots origin literal target

theorem Resolves.unique {other : String} (h : Resolves env roots origin location package)
    (h' : Resolves env roots origin location other) : package = other := by
  obtain ⟨located, found, rfl⟩ := h.found
  obtain ⟨located', found', rfl⟩ := h'.found
  cases found.symm.trans found'
  rfl

/-- A package that is loaded has all its files. -/
theorem Loadable.files_eq (h : Loadable env roots origin package located)
    (sound : Sound env roots origin [] session) (ne : session.sources.filesOf package ≠ []) :
    session.sources.filesOf package =
      (located.selection origin.config.includeTestFiles).filterMap
        fun name => env.file? (located.dir.join name) := by
  obtain ⟨source, read⟩ := sound.files package ne
  have dir : source.dir = located.dir := h.alone source read.leads read.canonical
  rw [read.files, dir, read.leads.selection_eq h.leads dir, Environment.readable_of_all h.readable]

/-- An import of the graph is among the imports of the package whenever that is
loaded. -/
theorem Imports.exists_literal (h : Imports env roots origin package target) :
    ∃ literal other, literal ≠ package ∧ Resolves env roots origin literal target ∧
      Loadable env roots origin target other ∧
      ∀ session, Sound env roots origin [] session → Traced env roots origin session →
        session.sources.filesOf package ≠ [] → literal ∈ session.sources.importsOf package := by
  obtain ⟨located, other, loadable, loadable', name, mem, file, found, literal, names, apart,
    leads⟩ := h
  refine ⟨literal, other, apart, leads, loadable', fun session sound traced ne => ?_⟩
  rw [traced.indexed package literal, loadable.files_eq sound ne]
  exact ⟨file, List.mem_filterMap.2 ⟨name, mem, found⟩, names⟩

/-! ## Loading along the graph -/

/-- What was located at a location before is its own package. -/
theorem Resolves.canonical_eq (h : Resolves env roots origin location target)
    (sound : Sound env roots origin [] session) (traced : Traced env roots origin session)
    (there : session.located.get? location = some located) :
    located.package = target := by
  rcases traced.located location located there with found | same
  · obtain ⟨own, answer, canonical⟩ := h.found
    have eq : own = located :=
      Roots.answer_injective ((Roots.answer_of_locate (.inl answer)).symm.trans found)
    rw [← eq]
    exact canonical
  · rw [← same]
    exact h.own located (sound.located location located there) same.symm

theorem Resolves.perform_locate (h : Resolves env roots origin location target)
    (search : env.locator = .search roots) (sound : Sound env roots origin [] session)
    (traced : Traced env roots origin session) :
    ∃ located after, session.perform (locate env location) = (.ok located, after) ∧
      roots.Leads env.tree origin.tags located ∧
      located.package = target := by
  rw [locate, perform_get_bind]
  cases there : session.located.get? location with
  | some located =>
    exact ⟨located, session, rfl, sound.located location located there,
      h.canonical_eq sound traced there⟩
  | none =>
    obtain ⟨located, found, canonical⟩ := h.found
    dsimp only
    rw [search, Locator.locate, traced.tags, found]
    exact ⟨located, _, rfl, Roots.leads_of_locate (.inl found), canonical⟩

/-- A package is held to its directory, or the failure is fatal. -/
theorem perform_settle_cases (session : Session U) (package : String) (dir : FilePath) :
    (∃ after, session.perform (settle package dir) = (.ok (), after) ∧
      after.config = session.config) ∨
    ∃ failure, (session.perform (settle package dir)).1 = .error failure ∧
      failure.isRecoverable = false := by
  rw [settle, perform_get_bind]
  split
  · split
    · exact .inl ⟨session, rfl, rfl⟩
    · exact .inr ⟨_, rfl, rfl⟩
  · exact .inl ⟨_, rfl, rfl⟩

section

variable (h : Resolves env roots origin location target)
  (loadable : Loadable env roots origin target other) (search : env.locator = .search roots)
  (sound : Sound env roots origin [] session) (traced : Traced env roots origin session)

include h loadable search sound traced

/-- A location that leads to a package gives that package when it is loaded, unless
the failure is fatal. -/
theorem Resolves.load_cases :
    (session.perform (load env location)).1 = .ok target ∨
      ∃ failure, (session.perform (load env location)).1 = .error failure ∧
        failure.isRecoverable = false := by
  obtain ⟨located, after, finds, leads, canonical⟩ := h.perform_locate search sound traced
  have dir : located.dir = other.dir := loadable.alone located leads canonical
  have selection : located.selection origin.config.includeTestFiles =
      other.selection origin.config.includeTestFiles := leads.selection_eq loadable.leads dir _
  have config : after.config = origin.config := by
    have located := (sound_locate search sound location).1.config
    rwa [finds] at located
  rw [load, perform_bind, finds]
  dsimp only
  rw [canonical, perform_bind]
  rcases perform_settle_cases after target located.dir with
    ⟨settled, holds, same⟩ | ⟨failure, fails, fatal⟩
  · have selected :
        (located.files ++ if settled.config.includeTestFiles then located.testFiles else []) =
          other.selection origin.config.includeTestFiles := by
      rw [same, config, ← selection]
      rfl
    rw [holds]
    dsimp only
    rw [perform_get_bind]
    rw [selected, if_neg (by simpa using loadable.selects), dir, perform_bind]
    have reads := @parseFiles_of_all U env target other.dir settled _ loadable.readable
    generalize settled.perform (parseFiles env target other.dir
      (other.selection origin.config.includeTestFiles)) = outcome at reads
    obtain ⟨result, read⟩ := outcome
    cases reads
    exact .inl rfl
  · generalize after.perform (settle target located.dir) = outcome at fails
    obtain ⟨result, settled⟩ := outcome
    cases fails
    exact .inr ⟨failure, rfl, fatal⟩

theorem Resolves.loaded_cases :
    (session.perform (loaded env location)).1 = .ok target ∨
      ∃ failure, (session.perform (loaded env location)).1 = .error failure ∧
        failure.isRecoverable = false := by
  obtain same | ⟨located, there, -, same⟩ := perform_loaded env session location
  · exact same ▸ h.load_cases loadable search sound traced
  · rw [same, h.canonical_eq sound traced there]
    exact .inl rfl

end

/-! ## Tasks without checks -/

/-- The result is not a check without end. -/
def Returned {α : Type} : Except Failure α → Prop
  | .ok _ => True
  | .error failure => failure.Ends

section Returns

variable {α β : Type} {task : Task U α} {next : α → Task U β}

/-- The task never comes to a check without end. -/
def Returns (task : Task U α) : Prop :=
  ∀ session : Session U, Returned (session.perform task).1

theorem Returns.bind (first : Returns task) (others : ∀ value, Returns (next value)) :
    Returns (task >>= next) := by
  intro session
  have ends := first session
  rw [perform_bind]
  generalize session.perform task = outcome at ends
  obtain ⟨result, after⟩ := outcome
  cases result with
  | ok value => exact others value after
  | error failure => exact ends

theorem returns_get_bind {next : Session U → Task U β}
    (others : ∀ session, Returns (next session)) : Returns (get >>= next) :=
  Returns.bind (fun _ => trivial) others

theorem returns_parseFiles (package : String) (dir : FilePath) (names : List String) :
    Returns (parseFiles env package dir names) := by
  induction names with
  | nil => exact fun _ => trivial
  | cons name rest ih =>
    intro session
    rw [perform_parseFiles_cons]
    cases env.tree.read (dir.join name) with
    | error fault => trivial
    | ok content =>
      dsimp only
      rw [perform_parseFile]
      by_cases there : session.sources.containsFile package (dir.join name) = true
      · rw [if_pos there]
        exact ih session
      · rw [if_neg there]
        cases env.frontend.parse (dir.join name) content with
        | error message => trivial
        | ok file => exact ih _

theorem returns_locate (location : String) : Returns (locate env location) := by
  refine returns_get_bind fun session => ?_
  split
  · exact fun _ => trivial
  · split <;> exact fun _ => trivial

theorem returns_settle (package : String) (dir : FilePath) :
    Returns (settle package dir : Task U Unit) := by
  refine returns_get_bind fun session => ?_
  split
  · split <;> exact fun _ => trivial
  · exact fun _ => trivial

theorem returns_load (location : String) : Returns (load env location) := by
  refine (returns_locate location).bind fun located =>
    (returns_settle _ _).bind fun _ => returns_get_bind fun session => ?_
  dsimp only
  generalize (located.files ++ if session.config.includeTestFiles then located.testFiles else [])
    = files
  split
  · exact fun _ => trivial
  · exact (returns_parseFiles _ _ files).bind fun _ _ => trivial

/-- Loading asks for no check. -/
theorem returns_loaded (location : String) : Returns (loaded env location) := by
  refine returns_get_bind fun session => ?_
  split
  · split
    · exact fun _ => trivial
    · exact returns_load location
  · exact returns_load location

end Returns

end Session

end GoAtlas
