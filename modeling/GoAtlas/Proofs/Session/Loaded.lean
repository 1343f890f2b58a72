import GoAtlas.Proofs.Locator
import GoAtlas.Proofs.Session.Lasting
import GoAtlas.Source.Frontend

/-!
# The files of a requested package

Whatever is asked of a session, and whichever of it fails, the files of a package
stay what one reading of its directory gives: those selected there, in order, up
to the first that cannot be read. A package with one file is taken as loaded, so a
package can be requested although a later file of it cannot be read; all selected
files are there exactly if all of them can be read.
-/

namespace GoAtlas.Session

variable {U : Type} {env : Environment U} {roots : Roots} {origin session : Session U}
  {known : List String} {package : String} {located : Located}

/-- The files of the package were read from a directory that the roots lead to. -/
structure ReadFrom (env : Environment U) (roots : Roots) (origin session : Session U)
    (package : String) (located : Located) : Prop where
  leads : roots.Leads env.tree origin.tags located
  canonical : located.package = package
  directory : session.directories.get? package = some located.dir
  files : session.sources.filesOf package =
    env.readable located.dir (located.selection origin.config.includeTestFiles)

/-- What holds of a session whatever was asked of it since `origin`. The packages of
`known` are some that have files. -/
structure Sound (env : Environment U) (roots : Roots) (origin : Session U) (known : List String)
    (session : Session U) : Prop where
  config : session.config = origin.config
  tags : session.tags = origin.tags
  located : ∀ location located, session.located.get? location = some located →
    roots.Leads env.tree origin.tags located
  directories : ∀ package dir, session.directories.get? package = some dir →
    ∃ located, roots.Leads env.tree origin.tags located ∧ located.dir = dir
  dense : session.sources.Dense
  files : ∀ package, session.sources.filesOf package ≠ [] →
    ∃ located, ReadFrom env roots origin session package located
  known : ∀ package ∈ known, session.sources.filesOf package ≠ []
  requested : ∀ package, session.requested.contains package = true →
    session.sources.filesOf package ≠ []

theorem sound_start (env : Environment U) (roots : Roots) (config : Config) :
    Sound env roots (start config) [] (start config) where
  config := rfl
  tags := rfl
  located _ _ h := nomatch h
  directories _ _ h := nomatch h
  dense := SourceIndex.dense_empty
  files _ h := absurd rfl h
  known _ h := nomatch h
  requested _ h := nomatch h

/-- Nothing is remembered but what was before, and the package itself under its location
and its path. -/
theorem known_of_remember {location other : String} {old : Located}
    (there : (session.remember location located).located.get? other = some old) :
    session.located.get? other = some old ∨
      old = located ∧ (other = location ∨ other = located.package) := by
  have inserted {key : String} {old : Located}
      (there : (session.located.insert location located).get? key = some old) :
      session.located.get? key = some old ∨
        old = located ∧ (key = location ∨ key = located.package) := by
    rw [Table.get?_insert] at there
    split at there
    · next same => exact .inr ⟨(Option.some.inj there).symm, .inl same⟩
    · exact .inl there
  rw [Session.remember, Table.get?_insertIfNew] at there
  split at there
  · next same =>
    cases taken : (session.located.insert location located).get? located.package with
    | none =>
      rw [taken] at there
      exact .inr ⟨(Option.some.inj there).symm, .inr same⟩
    | some first =>
      rw [taken] at there
      cases there
      exact same ▸ inserted taken
  · exact inserted there

namespace Sound

section

variable (h : Sound env roots origin known session)

include h

/-- What was located and requested may change where directories and files do not. -/
theorem update {located : Table Located} {requested : NameSet} (checks : Table CheckState)
    (calls : List Call) (leads : ∀ location found, located.get? location = some found →
      roots.Leads env.tree origin.tags found) (read : ∀ package, requested.contains package = true →
      session.sources.filesOf package ≠ []) :
    Sound env roots origin known { session with located, requested, checks, calls } where
  __ := h
  located := leads
  files package ne := by
    obtain ⟨source, read⟩ := h.files package ne
    exact ⟨source, { read with }⟩
  requested := read

/-- Checks and calls make no difference. -/
theorem frame (checks : Table CheckState) (calls : List Call) :
    Sound env roots origin known { session with checks, calls } :=
  h.update checks calls h.located h.requested

theorem learn (ne : session.sources.filesOf package ≠ []) :
    Sound env roots origin (package :: known) session where
  __ := h
  known other mem := by
    rcases List.mem_cons.1 mem with rfl | mem
    · exact ne
    · exact h.known other mem

end

theorem forget (h : Sound env roots origin (package :: known) session) :
    Sound env roots origin known session where
  __ := h
  known other mem := h.known other (List.mem_cons_of_mem _ mem)

section

variable (h : Sound env roots origin known session)

include h

theorem request (ne : session.sources.filesOf package ≠ []) :
    Sound env roots origin known (session.request package) := by
  refine h.update _ _ h.located fun other mem => ?_
  rcases (NameSet.contains_add session.requested package other).1 mem with rfl | mem
  · exact ne
  · exact h.requested other mem

theorem remember (location : String) (leads : roots.Leads env.tree origin.tags located) :
    Sound env roots origin known (session.remember location located) := by
  refine h.update _ _ (fun other found there => ?_) h.requested
  rcases known_of_remember there with before | ⟨rfl, -⟩
  · exact h.located other found before
  · exact leads

/-- A package held to a directory for the first time has no files yet. -/
theorem settle (leads : roots.Leads env.tree origin.tags located)
    (free : session.directories.get? package = none) :
    Sound env roots origin known
      { session with directories := session.directories.insert package located.dir } where
  __ := h
  directories other dir found := by
    rw [Table.get?_insert] at found
    split at found
    · exact ⟨located, leads, Option.some.inj found⟩
    · exact h.directories other dir found
  files other ne := by
    obtain ⟨source, read⟩ := h.files other ne
    refine ⟨source, { read with directory := ?_ }⟩
    rw [Table.get?_insert_of_ne]
    · exact read.directory
    · rintro rfl
      rw [read.directory] at free
      cases free

/-- Before a reading the package has none of the files, or all that a reading gives. -/
theorem partly (leads : roots.Leads env.tree origin.tags located)
    (held : session.directories.get? package = some located.dir) :
    session.sources.filesOf package = [] ∨ session.sources.filesOf package =
      env.readable located.dir (located.selection origin.config.includeTestFiles) := by
  by_cases none : session.sources.filesOf package = []
  · exact .inl none
  · obtain ⟨source, read⟩ := h.files package none
    have dir : source.dir = located.dir := Option.some.inj (read.directory.symm.trans held)
    refine .inr (read.files.trans ?_)
    rw [dir, read.leads.selection_eq leads dir]

/-- The session after a reading of the files of a package. -/
theorem reads {after : Session U} (leads : roots.Leads env.tree origin.tags located)
    (canonical : located.package = package)
    (held : session.directories.get? package = some located.dir)
    (reads : Reads package session after) (files : after.sources.filesOf package =
      env.readable located.dir (located.selection origin.config.includeTestFiles)) :
    Sound env roots origin known after := by
  have stays (other) (ne : session.sources.filesOf other ≠ []) :
      after.sources.filesOf other ≠ [] := by
    by_cases same : other = package
    · subst same
      rw [files]
      rcases h.partly leads held with none | whole
      · exact absurd none ne
      · exact whole ▸ ne
    · rw [reads.others other same]
      exact ne
  have dense := reads.dense h.dense
  obtain ⟨sources, calls, rfl⟩ := reads.frame
  refine { h with dense, files := ?_, known := ?_, requested := ?_ }
  · intro other ne
    by_cases same : other = package
    · subst same
      exact ⟨located, leads, canonical, held, files⟩
    · have unchanged := reads.others other same
      obtain ⟨source, read⟩ := h.files other (unchanged ▸ ne)
      exact ⟨source, { read with files := unchanged.trans read.files }⟩
  · exact fun other mem => stays other (h.known other mem)
  · exact fun other mem => stays other (h.requested other mem)

end

end Sound

section Tasks

variable (search : env.locator = .search roots) (tidy : env.tree.WellFormed)

section

variable (h : Sound env roots origin known session)

include h

include search in
theorem sound_locate (location : String) :
    Sound env roots origin known (session.perform (locate env location)).2
      ∧ ∀ located, (session.perform (locate env location)).1 = .ok located →
        roots.Leads env.tree origin.tags located := by
  rcases perform_locate env session location with
    ⟨failure, missing, -⟩ | ⟨located, after, found, locates⟩
  · rw [missing]
    exact ⟨h, fun _ ok => by cases ok⟩
  rw [found]
  cases locates with
  | before there =>
    refine ⟨h, ?_⟩
    rintro _ ⟨⟩
    exact h.located location located there
  | now _ finds =>
    rw [Environment.Finds, search, h.tags] at finds
    have leads := Roots.leads_of_locate finds
    refine ⟨h.remember location leads, ?_⟩
    rintro _ ⟨⟩
    exact leads

theorem sound_settle (leads : roots.Leads env.tree origin.tags located) (package : String) :
    Sound env roots origin known (session.perform (settle package located.dir)).2
      ∧ ((session.perform (settle package located.dir)).1 = .ok () →
        (session.perform (settle package located.dir)).2.directories.get? package
          = some located.dir) := by
  rw [settle, perform_get_bind]
  split
  next previous found =>
    split
    next same =>
      refine ⟨h, fun _ => ?_⟩
      obtain ⟨source, leads', rfl⟩ := h.directories package previous found
      rw [← leads'.dir_eq_of_same leads same]
      exact found
    next => exact ⟨h, fun ok => nomatch ok⟩
  next free => exact ⟨h.settle leads free, fun _ => Table.get?_insert_self ..⟩

include tidy in
theorem sound_parseFiles (leads : roots.Leads env.tree origin.tags located)
    (canonical : located.package = package)
    (held : session.directories.get? package = some located.dir)
    (some_file : located.selection origin.config.includeTestFiles ≠ []) :
    let outcome := session.perform (parseFiles env package located.dir
      (located.selection origin.config.includeTestFiles))
    Sound env roots origin known outcome.2
      ∧ (outcome.1 = .ok () → outcome.2.sources.filesOf package ≠ []) := by
  intro outcome
  obtain ⟨place, names, described⟩ := leads.describes
  have distinct : (located.selection origin.config.includeTestFiles).Pairwise
      fun name other => (located.dir.join name).same (located.dir.join other) = false := by
    refine (described.nodup_selection tidy _).imp_of_mem ?_
    intro name other mem mem' ne
    exact eq_false_of_ne_true fun same => ne (leads.name_eq_of_same tidy mem mem' same)
  obtain ⟨reads, files, all⟩ := perform_parseFiles (List.nil_append _).symm
    (h.partly leads held) (fun _ _ _ mem => nomatch mem) distinct
  refine ⟨h.reads leads canonical held reads files, ?_⟩
  intro ok
  obtain ⟨name, mem⟩ := List.exists_mem_of_ne_nil _ some_file
  obtain ⟨file, read, -⟩ := Environment.mem_readable_of_all (all ok) mem
  rw [files]
  exact List.ne_nil_of_mem read

include search tidy in
/-- Loading gives a package with files. -/
theorem sound_load (location : String) :
    Sound env roots origin known (session.perform (load env location)).2
      ∧ ∀ package, (session.perform (load env location)).1 = .ok package →
        (session.perform (load env location)).2.sources.filesOf package ≠ [] := by
  obtain ⟨sound, leads⟩ := sound_locate search h location
  rw [load, perform_bind]
  generalize session.perform (locate env location) = outcome at sound leads
  obtain ⟨_ | located, session⟩ := outcome
  · exact ⟨sound, fun _ ok => by cases ok⟩
  replace leads := leads located rfl
  obtain ⟨settled, held⟩ := sound_settle sound leads located.package
  dsimp only
  rw [perform_bind]
  generalize session.perform (settle located.package located.dir) = outcome at settled held
  obtain ⟨_ | _, session⟩ := outcome
  · exact ⟨settled, fun _ ok => by cases ok⟩
  have config : session.config = origin.config := settled.config
  dsimp only
  rw [perform_get_bind]
  rw [config, ← Located.selection]
  by_cases empty : (located.selection origin.config.includeTestFiles).isEmpty = true
  · rw [if_pos empty]
    exact ⟨settled, fun _ ok => by cases ok⟩
  · rw [if_neg empty]
    obtain ⟨read, files⟩ := sound_parseFiles tidy settled leads rfl (held rfl)
      (by simpa using empty)
    rw [perform_bind]
    generalize session.perform (parseFiles env located.package located.dir
      (located.selection origin.config.includeTestFiles)) = outcome at read files
    obtain ⟨_ | _, session⟩ := outcome
    · exact ⟨read, fun _ ok => by cases ok⟩
    · refine ⟨read, ?_⟩
      rintro package ⟨⟩
      exact files rfl

include search tidy in
theorem sound_loaded (location : String) :
    Sound env roots origin known (session.perform (loaded env location)).2
      ∧ ∀ package, (session.perform (loaded env location)).1 = .ok package →
        (session.perform (loaded env location)).2.sources.filesOf package ≠ [] := by
  obtain same | ⟨located, -, has, same⟩ := perform_loaded env session location
  · exact same ▸ sound_load search tidy h location
  · rw [same]
    refine ⟨h, ?_⟩
    rintro package ⟨⟩
    exact (h.dense _).1 has

end

include search tidy in
theorem checking_sound : Checking env (Sound env roots origin known) where
  loaded location _ h := (sound_loaded search tidy h location).1
  undecided _ _ _ h _ := h.frame _ _
  conclude _ _ _ _ h := h.frame _ _

include search tidy in
/-- A package is requested after it was loaded, and keeps its files while it is checked. -/
theorem keeps_importRequested (depth : Nat) (location : String) :
    Keeps (Sound env roots origin known) (importRequested env depth location) := by
  intro session h
  obtain ⟨sound, files⟩ := sound_loaded search tidy h location
  rw [importRequested, perform_bind]
  generalize session.perform (loaded env location) = outcome at sound files
  obtain ⟨_ | package, session⟩ := outcome
  · exact sound
  have checking : Checking env (Sound env roots origin (package :: known)) :=
    checking_sound search tidy
  have checked := checking.keeps_check (checking.keeps_importAt depth) package session
    (sound.learn (files package rfl))
  dsimp only
  rw [perform_bind]
  generalize session.perform (check env (importAt env depth) package) = outcome at checked
  obtain ⟨_ | _, session⟩ := outcome
  · exact checked.forget
  · exact checked.forget.request (checked.known package List.mem_cons_self)

include search tidy in
theorem keeps_task (command : Command) :
    Keeps (Sound env roots origin known) (command.task env) :=
  have checking : Checking env (Sound env roots origin known) := checking_sound search tidy
  keeps_command (keeps_importRequested search tidy)
    (fun depth => checking.keeps_check (checking.keeps_importAt depth)) command

end Tasks

section Ahead

variable {location : String} (unknown : session.located.get? location = none)
  (found : env.locator.locate env.tree session.tags location = .ok located)

theorem get?_remember_self :
    (session.remember location located).located.get? location = some located := by
  rw [remember, Table.get?_insertIfNew]
  split
  next same => rw [← same, Table.get?_insert_self]; rfl
  next => exact Table.get?_insert_self ..

include unknown found in
theorem perform_locate_remember :
    session.perform (locate env location) =
      (session.remember location located).perform (locate env location) := by
  rw [locate, perform_get_bind, perform_get_bind]
  rw [unknown, found, get?_remember_self]
  rfl

include unknown found in
theorem perform_loaded_remember (new : session.sources.hasPackage located.package = false) :
    session.perform (loaded env location) =
      (session.remember location located).perform (loaded env location) := by
  have loads : session.perform (load env location) =
      (session.remember location located).perform (load env location) := by
    rw [load, perform_bind, perform_bind, perform_locate_remember unknown found]
  have new' : (session.remember location located).sources.hasPackage located.package = false := new
  rw [loaded, perform_get_bind, perform_get_bind]
  rw [knownPackage?, unknown, knownPackage?, get?_remember_self, Option.map_none, Option.map_some]
  dsimp only
  rw [new', if_neg Bool.false_ne_true]
  exact loads

include unknown found in
/-- A package that is added for the first time may as well be located ahead. -/
theorem runAll_add_remember (new : session.sources.hasPackage located.package = false)
    (commands : List Command) :
    session.runAll env (.add location :: commands) =
      ((session.remember location located).perform
        (importRequested env (importDepth env session) location)).2.runAll env commands := by
  have adds : session.perform (add env location) = (session.remember location located).perform
      (importRequested env (importDepth env session) location) := by
    rw [add, perform_get_bind]
    rw [importRequested, perform_bind, perform_bind, perform_loaded_remember unknown found new]
  rw [runAll, Command.task, adds]

end Ahead

/-- The roots find the package, in the directory that the session holds it to. -/
structure Selects (env : Environment U) (roots : Roots) (tags : NameSet) (session : Session U)
    (package : String) (located : Located) : Prop where
  found : ∃ location, roots.locate env.tree tags location = .ok located
  canonical : located.package = package
  directory : session.directories.get? package = some located.dir

theorem Sound.selects (h : Sound env roots origin known session)
    (ne : session.sources.filesOf package ≠ []) :
    ∃ located, Selects env roots origin.tags session package located := by
  obtain ⟨located, read⟩ := h.files package ne
  have some_file : located.selection origin.config.includeTestFiles ≠ [] := by
    intro empty
    rw [read.files, empty] at ne
    exact ne rfl
  exact ⟨located, read.leads.found_of_selection some_file, read.canonical, read.directory⟩

theorem Sound.files_eq (h : Sound env roots origin known session)
    (ne : session.sources.filesOf package ≠ [])
    (selects : Selects env roots origin.tags session package located) :
    session.sources.filesOf package =
      env.readable located.dir (located.selection origin.config.includeTestFiles) := by
  obtain ⟨location, found⟩ := selects.found
  exact (h.partly (Roots.leads_of_locate (.inl found)) selects.directory).resolve_left ne

/-- All selected files are there exactly if all of them can be read. -/
theorem all_contained_iff {withTests : Bool} (tidy : env.tree.WellFormed)
    (leads : roots.Leads env.tree origin.tags located)
    (files : session.sources.filesOf package =
      env.readable located.dir (located.selection withTests)) :
    (∀ name ∈ located.selection withTests,
        session.sources.containsFile package (located.dir.join name) = true)
      ↔ ∀ name ∈ located.selection withTests,
        (env.file? (located.dir.join name)).isSome = true := by
  constructor
  · intro all name mem
    obtain ⟨file, there, same⟩ := List.any_eq_true.1 (all name mem)
    obtain ⟨other, mem', read⟩ := Environment.name_of_mem_readable (files ▸ there)
    rw [Environment.path_of_file? read] at same
    rw [← leads.name_eq_of_same tidy mem' mem same, read]
    rfl
  · intro all name mem
    obtain ⟨file, there, path⟩ := Environment.mem_readable_of_all all mem
    exact path ▸ containsFile_of_mem (files ▸ there)

/-- After any commands, failed ones among them, a requested package has been found by the
roots, and its files are those selected in its directory up to the first that cannot be
read. There is at least one. All selected files are there exactly if all can be read. -/
theorem files_of_requested (search : env.locator = .search roots) (tidy : env.tree.WellFormed)
    (config : Config) (commands : List Command)
    (requested : ((start config).runAll env commands).requested.contains package = true) :
    let session := (start config).runAll env commands
    let tags := (start config : Session U).tags
    (∃ located, Selects env roots tags session package located)
      ∧ ∀ located, Selects env roots tags session package located →
        session.sources.filesOf package =
            env.readable located.dir (located.selection config.includeTestFiles)
          ∧ session.sources.filesOf package ≠ []
          ∧ ((∀ name ∈ located.selection config.includeTestFiles,
                session.sources.containsFile package (located.dir.join name) = true)
            ↔ ∀ name ∈ located.selection config.includeTestFiles,
                (env.file? (located.dir.join name)).isSome = true) := by
  intro session tags
  have sound : Sound env roots (start config) [] session :=
    runAll_keeps (keeps_task search tidy) (sound_start env roots config) commands
  have ne := sound.requested package requested
  refine ⟨sound.selects ne, fun located selects => ?_⟩
  have files := sound.files_eq ne selects
  obtain ⟨location, found⟩ := selects.found
  exact ⟨files, ne, all_contained_iff tidy (Roots.leads_of_locate (.inl found)) files⟩

/-- Packages are looked for below the root of the tree, and directories from there. -/
def topRoots : Roots :=
  { searchPaths := [⟨"/"⟩], workingDir := ⟨"/"⟩ }

def topSource (tree : FileTree) : Environment SourceTree :=
  { frontend := Source.frontend, locator := .search topRoots, tree }

/-- A package of two files, the second of which is no source. -/
def brokenTree : FileTree :=
  (({} : FileTree).put ⟨"/p/a.go"⟩ (.text "package p\n")).put ⟨"/p/b.go"⟩ (.text "oops\n")

def brokenSource : Environment SourceTree :=
  topSource brokenTree

def brokenPackage : Located :=
  { importPath := "p", dir := ⟨"/p"⟩, files := ["a.go", "b.go"], testFiles := [] }

/-- The session after the package was added, which failed, and added again. -/
def addedTwice : Session SourceTree :=
  (start {}).runAll brokenSource [.add "p", .add "p"]

theorem wellFormed_brokenTree : brokenTree.WellFormed :=
  (FileTree.wellFormed_empty.put _ _).put _ _

theorem filesIn_brokenTree : brokenTree.filesIn ["p"] = ["a.go", "b.go"] := by
  have entries : brokenTree.entries = [(["p", "b.go"], .text "oops\n"),
      (["p", "a.go"], .text "package p\n"), (["p"], .directory)] := by decide +kernel
  simp [FileTree.filesIn, entries, List.isPrefixOf?, Entry.isFile, List.mergeSort]

theorem locate_brokenPackage :
    topRoots.locate brokenTree (start {} : Session SourceTree).tags "p" = .ok brokenPackage := by
  have place : topRoots.directory brokenTree "p" = .ok (["p"], "p") := by decide +kernel
  have names : Roots.selected brokenTree (start {} : Session SourceTree).tags (Place.path ["p"])
      (["a.go", "b.go"].filter isSourceName) = .ok ["a.go", "b.go"] := by decide +kernel
  simp only [Roots.locate, place, bind, Except.bind, filesIn_brokenTree, names]
  decide +kernel

theorem addedTwice_eq : addedTwice =
    (((start {}).remember "p" brokenPackage).perform
      (importRequested brokenSource (importDepth brokenSource (start {})) "p")).2.runAll
        brokenSource [.add "p"] := by
  have found : brokenSource.locator.locate brokenSource.tree
      (start {} : Session SourceTree).tags "p" = .ok brokenPackage := locate_brokenPackage
  exact runAll_add_remember rfl found rfl _

theorem requested_addedTwice : addedTwice.requested.contains "p" = true := by
  rw [addedTwice_eq]
  decide +kernel

theorem selects_addedTwice : Selects brokenSource topRoots (start {} : Session SourceTree).tags
    addedTwice "p" brokenPackage where
  found := ⟨"p", locate_brokenPackage⟩
  canonical := by decide +kernel
  directory := by
    rw [addedTwice_eq]
    decide +kernel

theorem files_of_requested_addedTwice :
    addedTwice.requested.contains "p" = true
      ∧ addedTwice.sources.filesOf "p" = brokenSource.readable ⟨"/p"⟩ ["a.go", "b.go"]
      ∧ addedTwice.sources.filesOf "p" ≠ [] := by
  obtain ⟨-, files⟩ := files_of_requested rfl wellFormed_brokenTree {} [.add "p", .add "p"]
    requested_addedTwice
  obtain ⟨read, some_file, -⟩ := files brokenPackage selects_addedTwice
  exact ⟨requested_addedTwice, read, some_file⟩

/-- A package can be requested although a selected file of it cannot be read and is not
among its files. -/
theorem requested_partly_read :
    addedTwice.requested.contains "p" = true
      ∧ Selects brokenSource topRoots (start {} : Session SourceTree).tags addedTwice "p"
        brokenPackage
      ∧ "b.go" ∈ brokenPackage.selection false
      ∧ (brokenSource.file? ⟨"/p/b.go"⟩).isSome = false
      ∧ addedTwice.sources.containsFile "p" ⟨"/p/b.go"⟩ = false := by
  refine ⟨requested_addedTwice, selects_addedTwice, by decide, by decide +kernel, ?_⟩
  rw [addedTwice_eq]
  decide +kernel

end GoAtlas.Session
