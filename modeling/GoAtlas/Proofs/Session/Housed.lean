import GoAtlas.Proofs.FilePath
import GoAtlas.Proofs.Session.Described
import GoAtlas.Proofs.Session.Directory

/-!
# One package, one directory

A package is reached by many locations: by its path, by a directory, by the path of a copy
in a vendor directory. Each location is located once and remembered, the package is held to
the directory where it was found first, and only then are files read. `LoadsTo` lists what
becomes of a session when a location is loaded, on the ways that fail too.

So the files of a package all stand in the directory it is held to, and none is there twice
(`Housed`). This holds after every request, over any locator and however the tree changed
meanwhile (`one_directory`).
-/

namespace GoAtlas.Session

variable {U : Type} {env : Environment U} {session between after : Session U}
  {location package : String} {located : Located}

/-! ## Loading a location -/

/-- The session once a package is held to its directory. -/
inductive HoldsTo (session : Session U) (located : Located) : Session U → Prop
  | before (holds : session.Holds located) : HoldsTo session located session
  | now (free : session.directories.get? located.package = none) :
    HoldsTo session located
      { session with directories := session.directories.insert located.package located.dir }

/-- The session once a location is loaded, whatever came of it. -/
inductive LoadsTo (env : Environment U) (session : Session U) (location : String) :
    Session U → Prop
  /-- The location is not found, or its package has files already. -/
  | nothing : LoadsTo env session location session
  /-- The package is held to another directory. -/
  | refused {located : Located} {after : Session U}
    (locates : Locates env session location located after) (elsewhere : ¬ after.Holds located) :
    LoadsTo env session location after
  | read {located : Located} {between after : Session U}
    (locates : Locates env session location located between)
    (holds : HoldsTo between located after) :
    LoadsTo env session location (after.perform (parseFiles env located.package located.dir
      (located.selection after.config.includeTestFiles))).2

theorem holdsTo_settle (session : Session U) (located : Located) :
    (∃ failure, session.perform (settle located.package located.dir) =
        (.error failure, session) ∧ ¬ session.Holds located) ∨
      ∃ after, session.perform (settle located.package located.dir) =
        (.ok (), after) ∧ HoldsTo session located after := by
  rw [perform_settle]
  cases there : session.directories.get? located.package with
  | none => exact .inr ⟨_, rfl, .now there⟩
  | some held =>
    dsimp only
    by_cases same : held.same located.dir = true
    · rw [if_pos same]
      exact .inr ⟨session, rfl, .before ⟨held, there, same⟩⟩
    · rw [if_neg same]
      refine .inl ⟨_, rfl, ?_⟩
      rintro ⟨dir, there', same'⟩
      cases there.symm.trans there'
      exact same same'

theorem loadsTo_load (session : Session U) (location : String) :
    LoadsTo env session location (session.perform (load env location)).2 := by
  rw [load, perform_bind]
  rcases perform_locate env session location with
    ⟨failure, missing, -⟩ | ⟨located, between, found, locates⟩
  · rw [missing]
    exact .nothing
  rw [found]
  dsimp only
  rw [perform_bind]
  rcases holdsTo_settle between located with ⟨failure, differs, elsewhere⟩ | ⟨after, same, holds⟩
  · rw [differs]
    exact .refused locates elsewhere
  rw [same]
  dsimp only
  rw [perform_get_bind]
  have read := LoadsTo.read locates holds
  rw [← Located.selection]
  split
  · next empty =>
    rw [List.isEmpty_iff.1 empty] at read
    exact read
  · rw [perform_bind]
    generalize after.perform (parseFiles env located.package located.dir
      (located.selection after.config.includeTestFiles)) = outcome at read
    obtain ⟨result, left⟩ := outcome
    cases result <;> exact read

theorem loadsTo_loaded (session : Session U) (location : String) :
    LoadsTo env session location (session.perform (loaded env location)).2 := by
  obtain same | ⟨_, -, -, same⟩ := perform_loaded env session location
  · exact same ▸ loadsTo_load session location
  · exact same ▸ .nothing

/-! ## What is remembered -/

theorem Locates.frame (locates : Locates env session location located after) :
    ∃ entries, after = { session with located := entries } := by
  cases locates <;> exact ⟨_, rfl⟩

theorem HoldsTo.frame (holdsTo : HoldsTo session located after) :
    ∃ directories, after = { session with directories } := by
  cases holdsTo <;> exact ⟨_, rfl⟩

section

variable (locates : Locates env session location located after)

include locates

theorem Locates.there : after.located.get? location = some located := by
  cases locates with
  | before there => exact there
  | now new found => exact get?_remember_self

/-- What was located stays located. -/
theorem Locates.kept {other : String} {old : Located}
    (there : session.located.get? other = some old) : after.located.get? other = some old := by
  cases locates with
  | before _ => exact there
  | now new found =>
    have inserted : (session.located.insert location located).get? other = some old := by
      rw [Table.get?_insert_of_ne]
      · exact there
      · rintro rfl
        cases new.symm.trans there
    rw [remember, Table.get?_insertIfNew]
    split
    · next same =>
      rw [← same, inserted]
      rfl
    · exact inserted

/-- Nothing is located but what was before, and the package at the location. -/
theorem Locates.known {other : String} {old : Located}
    (there : after.located.get? other = some old) :
    session.located.get? other = some old ∨ old = located := by
  cases locates with
  | before _ => exact .inl there
  | now new found => exact (known_of_remember there).imp_right And.left

end

theorem HoldsTo.holds (holds : HoldsTo session located after) : after.Holds located := by
  cases holds with
  | before holds => exact holds
  | now free => exact ⟨located.dir, Table.get?_insert_self .., beq_self_eq_true _⟩

theorem HoldsTo.kept (holdsTo : HoldsTo session located after) {other : Located}
    (holds : session.Holds other) : after.Holds other := by
  cases holdsTo with
  | before _ => exact holds
  | now free =>
    obtain ⟨dir, there, same⟩ := holds
    refine ⟨dir, (Table.get?_insert_of_ne _ _ fun eq => ?_).trans there, same⟩
    rw [← eq, there] at free
    cases free

/-! ## The invariant -/

/-- The file has a name that was listed for its package, in the directory that the package
is held to. -/
def Home (session : Session U) (package : String) (file : SourceFile U) : Prop :=
  ∃ location located, session.located.get? location = some located ∧
    located.package = package ∧ session.Holds located ∧
      ∃ name ∈ located.files ++ located.testFiles, file.path = located.dir.join name

/-- Every package has its files from one directory, each once. -/
structure Housed (session : Session U) : Prop where
  dense : session.sources.Dense
  home : ∀ package, ∀ file ∈ session.sources.filesOf package, session.Home package file
  apart : ∀ package, (session.sources.filesOf package).Pairwise fun file other =>
    file.path.same other.path = false

theorem housed_start (config : Config) : Housed (start config : Session U) where
  dense := SourceIndex.dense_empty
  home _ _ mem := by cases mem
  apart _ := .nil

namespace Housed

/-- What is located and held stays so, and no file is read. -/
theorem later (h : session.Housed) (sources : after.sources = session.sources)
    (kept : ∀ location located, session.located.get? location = some located →
      after.located.get? location = some located)
    (holds : ∀ located, session.Holds located → after.Holds located) : after.Housed := by
  refine ⟨sources ▸ h.dense, fun package file mem => ?_, fun package => sources ▸ h.apart package⟩
  obtain ⟨location, located, there, canonical, held, listed⟩ := h.home package file (sources ▸ mem)
  exact ⟨location, located, kept location located there, canonical, holds located held, listed⟩

theorem locates (h : session.Housed) (locates : Locates env session location located after) :
    after.Housed := by
  have same : after.sources = session.sources ∧ after.directories = session.directories := by
    cases locates <;> exact ⟨rfl, rfl⟩
  refine h.later same.1 (fun _ _ => locates.kept) fun other held => ?_
  rw [Holds, same.2]
  exact held

theorem holdsTo (h : session.Housed) (holdsTo : HoldsTo session located after) : after.Housed := by
  have same : after.sources = session.sources ∧ after.located = session.located := by
    cases holdsTo <;> exact ⟨rfl, rfl⟩
  refine h.later same.1 (fun other old there => ?_) fun _ => holdsTo.kept
  rw [same.2]
  exact there

/-- A new file may be read from the directory that the package is held to. -/
theorem addFile (h : session.Housed) (there : session.located.get? location = some located)
    (holds : session.Holds located) {name : String}
    (listed : name ∈ located.files ++ located.testFiles) {file : SourceFile U}
    (path : file.path = located.dir.join name)
    (fresh : session.sources.containsFile located.package file.path = false) :
    (session.addFile located.package file).Housed where
  dense := h.dense.insert _ file
  home package other mem := by
    rw [Session.addFile, SourceIndex.filesOf_insert fresh] at mem
    split at mem
    · next same =>
      subst same
      rcases List.mem_append.1 mem with mem | mem
      · exact h.home _ other mem
      · rw [List.mem_singleton.1 mem]
        exact ⟨location, located, there, rfl, holds, name, listed, path⟩
    · exact h.home package other mem
  apart package := by
    rw [Session.addFile, SourceIndex.filesOf_insert fresh]
    split
    · refine List.pairwise_append.2 ⟨h.apart _, List.pairwise_singleton _ _, ?_⟩
      intro old mem new single
      rw [List.mem_singleton.1 single]
      exact eq_false_of_ne_true (List.any_eq_false.1 fresh old mem)
    · exact h.apart package

theorem loadsTo (h : session.Housed) (loads : LoadsTo env session location after) :
    after.Housed := by
  cases loads with
  | nothing => exact h
  | refused locates elsewhere => exact h.locates locates
  | @read located between held locates holdsTo =>
    -- the package stays located and held while its files are read
    have reading : Keeps (fun session : Session U => session.Housed ∧
        session.located.get? location = some located ∧ session.Holds located)
        (parseFiles env located.package located.dir
          (located.selection held.config.includeTestFiles)) := by
      refine keeps_parseFiles (fun session path h => ?_) ?_
      · exact ⟨⟨h.1.dense, h.1.home, h.1.apart⟩, h.2⟩
      · rintro session name mem file ⟨housed, there, holds⟩ found fresh
        have path := Environment.path_of_file? found
        have listed := Located.mem_of_mem_selection mem
        exact ⟨housed.addFile there holds listed path fresh, there, holds⟩
    refine (reading held ⟨(h.locates locates).holdsTo holdsTo, ?_, holdsTo.holds⟩).1
    have same : held.located = between.located := by cases holdsTo <;> rfl
    rw [same]
    exact locates.there

end Housed

theorem outlasts_housed (env : Environment U) : Outlasts env Housed where
  loaded location session h := h.loadsTo (loadsTo_loaded session location)
  undecided _ _ _ h _ := ⟨h.dense, h.home, h.apart⟩
  conclude _ _ _ _ h := ⟨h.dense, h.home, h.apart⟩
  request _ _ h := ⟨h.dense, h.home, h.apart⟩
  addTags _ _ h := ⟨h.dense, h.home, h.apart⟩

/-- Whatever was located has the property. -/
def Remembers (session : Session U) (p : Located → Prop) : Prop :=
  ∀ location located, session.located.get? location = some located → p located

/-- What holds of a package under the location it is found at, and under its canonical path, holds
of whatever was located. -/
theorem lasting_located {p : String → Located → Prop}
    (finds : ∀ tags location located, env.Finds tags location located →
      p location located ∧ p located.package located) :
    Lasting env fun session => ∀ location located,
      session.located.get? location = some located → p location located where
  remember session location located h found other old there := by
    rcases known_of_remember there with before | ⟨rfl, rfl | rfl⟩
    · exact h other old before
    · exact (finds session.tags _ _ found).1
    · exact (finds session.tags _ _ found).2
  settle _ _ _ h _ := h
  record _ _ h := h
  addFile _ _ _ h _ := h
  undecided _ _ _ h _ := h
  conclude _ _ _ _ h := h
  request _ _ h := h
  addTags _ _ h := h

theorem lasting_remembers {p : Located → Prop}
    (finds : ∀ tags location located, env.Finds tags location located → p located) :
    Lasting env fun session => session.Remembers p :=
  lasting_located fun tags location located found =>
    ⟨finds tags location located found, finds tags location located found⟩

/-! ## Runs -/

/-- The directory of a package is never changed, whatever is asked over whatever tree. -/
theorem directory_serveOver (frontend : Frontend U) (locator : Locator) {dir : FilePath}
    (there : session.directories.get? package = some dir) (asked : List (FileTree × Request)) :
    (session.serveOver frontend locator asked).directories.get? package = some dir :=
  @keeps_serveOver U session frontend locator
    (fun session => session.directories.get? package = some dir) asked
    (fun _ _ => (lasting_directory _ package dir).toOutlasts) there

theorem Housed.directory (h : session.Housed) (has : session.sources.hasPackage package = true) :
    ∃ dir, session.directories.get? package = some dir := by
  obtain ⟨file, mem⟩ := List.exists_mem_of_ne_nil _ ((h.dense package).1 has)
  obtain ⟨-, located, -, canonical, ⟨dir, there, -⟩, -⟩ := h.home package file mem
  exact ⟨dir, canonical ▸ there⟩

theorem Home.path {dir : FilePath} {file : SourceFile U} (home : session.Home package file)
    (there : session.directories.get? package = some dir) :
    ∃ location located, session.located.get? location = some located ∧ located.package = package ∧
      ∃ name ∈ located.files ++ located.testFiles, file.path.same (dir.join name) = true := by
  obtain ⟨location, located, found, canonical, ⟨held, there', same⟩, name, listed, path⟩ := home
  rw [canonical, there] at there'
  cases there'
  refine ⟨location, located, found, canonical, name, listed, ?_⟩
  rw [FilePath.same_iff, path]
  exact (FilePath.same_iff.1 (FilePath.same_join same name)).symm

end GoAtlas.Session

namespace GoAtlas

variable {U : Type}

/-- The locator lists files by their names. -/
def Environment.ListsNames (env : Environment U) : Prop :=
  ∀ tags location located, env.Finds tags location located →
    ∀ name ∈ located.files ++ located.testFiles, IsName name

/-- Search roots list the files of a directory by their names. -/
theorem Environment.listsNames_search (frontend : Frontend U) (roots : Roots) {tree : FileTree}
    (tidy : tree.WellFormed) :
    Environment.ListsNames { frontend, locator := .search roots, tree } := by
  intro tags location located found name listed
  obtain ⟨place, names, described⟩ := (Roots.leads_of_locate found).describes
  have chosen : name ∈ located.selection true := listed
  exact described.isName tidy (described.mem_of_mem_selection chosen)

namespace Session

/-- In a session that was asked for anything, over any trees: the directory of a package is
never changed, a package with files has one, every file of it is a file of that directory
that was listed for the package, and no two of them are the same file. Where files are
listed by their names, the path of a file is the directory and a name. -/
theorem one_directory (frontend : Frontend U) (locator : Locator) (config : Config)
    (asked : List (FileTree × Request)) :
    let session : Session U := (start config).serveOver frontend locator asked
    (∀ package dir, session.directories.get? package = some dir → ∀ later,
      (session.serveOver frontend locator later).directories.get? package = some dir) ∧
    ∀ package, session.sources.hasPackage package = true →
      ∃ dir, session.directories.get? package = some dir ∧
        (∀ file ∈ session.sources.filesOf package, ∃ location located,
          session.located.get? location = some located ∧
          located.package = package ∧
          ∃ name ∈ located.files ++ located.testFiles, file.path.same (dir.join name) = true) ∧
        ((session.sources.filesOf package).Pairwise fun file other =>
          file.path.same other.path = false) ∧
        ((∀ step ∈ asked, Environment.ListsNames { frontend, locator, tree := step.1 }) →
          ∀ file ∈ session.sources.filesOf package, ∃ name, IsName name ∧
            file.path.components = dir.components ++ [.name name]) := by
  intro session
  have housed : session.Housed :=
    keeps_serveOver (fun _ _ => outlasts_housed _) (housed_start config)
  refine ⟨fun package dir there => directory_serveOver frontend locator there,
    fun package has => ?_⟩
  obtain ⟨dir, there⟩ := housed.directory has
  refine ⟨dir, there, fun file mem => (housed.home package file mem).path there,
    housed.apart package, fun names file mem => ?_⟩
  have listed : session.Remembers fun located =>
      ∀ name ∈ located.files ++ located.testFiles, IsName name :=
    keeps_serveOver (fun step mem => (lasting_remembers (names step mem)).toOutlasts)
      (fun _ _ there => by cases there)
  obtain ⟨location, located, found, -, name, mem, same⟩ :=
    (housed.home package file mem).path there
  have named := listed location located found name mem
  exact ⟨name, named, (FilePath.same_iff.1 same).trans (dir.components_join_name named)⟩

/-- A package and its copy are added in turn; the copy is refused at first, and taken when
it is asked for again. -/
def copyAdded : List (FileTree × Request) :=
  ["lib/x", "app/vendor/lib/x", "app/vendor/lib/x"].map fun location =>
    (vendoredTree, .command (.add location))

def copySession : Session SourceTree :=
  (start {}).serveOver Source.frontend vendoredSource.locator copyAdded

/-- No file of the copy is among the files of the package. -/
theorem one_directory_copyAdded : copySession.sources.hasPackage "lib/x" = true ∧
    copySession.directories.get? "lib/x" = some ⟨"/lib/x"⟩ ∧
    ∀ file ∈ copySession.sources.filesOf "lib/x", ∃ name, IsName name ∧
      file.path.components = [.root, .name "lib", .name "x", .name name] := by
  have added : copySession.sources.hasPackage "lib/x" = true ∧
      copySession.directories.get? "lib/x" = some ⟨"/lib/x"⟩ := by decide +kernel
  have tidy : vendoredTree.WellFormed := (FileTree.wellFormed_empty.put _ _).put _ _
  have names : ∀ step ∈ copyAdded, Environment.ListsNames
      { frontend := Source.frontend, locator := vendoredSource.locator, tree := step.1 } := by
    intro step mem
    have tree : step.1 = vendoredTree := by
      obtain ⟨location, -, same⟩ := List.mem_map.1 mem
      rw [← same]
    rw [tree]
    exact Environment.listsNames_search _ _ tidy
  have held := (one_directory Source.frontend vendoredSource.locator {} copyAdded).2 "lib/x"
  rw [← copySession] at held
  obtain ⟨dir, there, -, -, path⟩ := held added.1
  have same : dir = ⟨"/lib/x"⟩ := Option.some.inj (there.symm.trans added.2)
  have parts : (⟨"/lib/x"⟩ : FilePath).components = [.root, .name "lib", .name "x"] := by
    decide +kernel
  rw [same, parts] at path
  exact ⟨added.1, added.2, path names⟩

end Session

end GoAtlas
