import GoAtlas.Proofs.Session.Documented
import GoAtlas.Proofs.Session.Housed

/-!
# The files that were checked

A package is checked once, from the files it has by then. Its result stays, but its files
may not: another location that leads to the package is loaded as well, and if more tags
hold by then, files are read that were left out before. The atlas reports the imports and
the comments of all of them (`added_after_check`).

A reading adds nothing if it comes to files that are there until it is over (`Exhausted`).
So a package keeps the files it was checked from as long as reading from its locations
comes to no others (`CoveredBy`). This is so if all of them select the same files
(`Agreed`), and they do unless tags are added meanwhile (`LocatedSince.agreed`).
-/

namespace GoAtlas.Session

variable {U : Type} {env : Environment U} {session between after origin : Session U}
  {location package : String} {located : Located} {dir : FilePath} {names : List String}
variable {files : List (SourceFile U)} {old : Located} {checked : Checked}

/-! ## Reading again -/

/-- A reading of the names comes to its end, or to a file that cannot be read, without a
file that is not there. -/
inductive Exhausted (env : Environment U) (files : List (SourceFile U)) (dir : FilePath) :
    List String → Prop
  | nil : Exhausted env files dir []
  | unread {name : String} {rest : List String} {fault : ReadFault}
    (read : env.tree.read (dir.join name) = .error fault) :
    Exhausted env files dir (name :: rest)
  | refused {name content message : String} {rest : List String}
    (read : env.tree.read (dir.join name) = .ok content)
    (parsed : env.frontend.parse (dir.join name) content = .error message)
    (absent : (files.any fun file => file.path.same (dir.join name)) = false) :
    Exhausted env files dir (name :: rest)
  | present {name : String} {rest : List String}
    (there : (files.any fun file => file.path.same (dir.join name)) = true)
    (later : Exhausted env files dir rest) :
    Exhausted env files dir (name :: rest)

/-- Nothing is added by a reading that was exhausted before. -/
theorem Exhausted.sources_parseFiles
    (h : Exhausted env (session.sources.filesOf package) dir names) :
    (session.perform (parseFiles env package dir names)).2.sources = session.sources := by
  induction h with
  | nil => rfl
  | unread read => rw [perform_parseFiles_cons, read]
  | refused read parsed absent =>
    have fresh : session.sources.containsFile package _ = false := absent
    rw [perform_parseFiles_cons, read]
    dsimp only
    rw [perform_parseFile, fresh, if_neg Bool.false_ne_true, parsed]
    rfl
  | @present name rest there later ih =>
    have there : session.sources.containsFile package _ = true := there
    rw [perform_parseFiles_cons]
    cases env.tree.read (dir.join name) with
    | error fault => rfl
    | ok content =>
      dsimp only
      rw [perform_parseFile, if_pos there]
      exact ih

/-- Reading adds files of the package at their end. -/
theorem reads_parseFiles (env : Environment U) (session : Session U) (package : String)
    (dir : FilePath) (names : List String) :
    let left := (session.perform (parseFiles env package dir names)).2
    Reads package session left ∧ session.calls <+: left.calls ∧
      session.sources.filesOf package <+: left.sources.filesOf package := by
  have keeps : Keeps (fun left => Reads package session left ∧ session.calls <+: left.calls ∧
      session.sources.filesOf package <+: left.sources.filesOf package)
      (parseFiles env package dir names) := by
    refine keeps_parseFiles ?_ ?_
    · rintro left path ⟨reads, calls, files⟩
      exact ⟨reads.trans (reads_record _), calls.trans (List.prefix_append _ _), files⟩
    · rintro left name - file ⟨reads, calls, files⟩ - fresh
      exact ⟨reads.trans (reads_addFile fresh), calls,
        files.trans (left.sources.filesOf_prefix_insert package file package)⟩
  exact keeps session ⟨.refl session, List.prefix_rfl, List.prefix_rfl⟩

theorem containsFile_addFile (session : Session U) (package : String) (file : SourceFile U) :
    (session.addFile package file).sources.containsFile package file.path = true := by
  cases there : session.sources.containsFile package file.path with
  | true => rwa [addFile, SourceIndex.insert, there]
  | false =>
    apply containsFile_of_mem
    rw [filesOf_addFile there]
    exact List.mem_append_right _ List.mem_cons_self

theorem any_of_grown {more : List (SourceFile U)} {path : FilePath}
    (there : (files.any fun file => file.path.same path) = true) (grown : files <+: more) :
    (more.any fun file => file.path.same path) = true := by
  obtain ⟨file, mem, same⟩ := List.any_eq_true.1 there
  exact List.any_eq_true.2 ⟨file, grown.subset mem, same⟩

/-- A reading is exhausted once it is over. -/
theorem exhausted_parseFiles (env : Environment U) (session : Session U) (package : String)
    (dir : FilePath) (names : List String) :
    Exhausted env
      ((session.perform (parseFiles env package dir names)).2.sources.filesOf package) dir
      names := by
  induction names generalizing session with
  | nil => exact .nil
  | cons name rest ih =>
    rw [perform_parseFiles_cons]
    cases read : env.tree.read (dir.join name) with
    | error fault => exact .unread read
    | ok content =>
      dsimp only
      rw [perform_parseFile]
      by_cases there : session.sources.containsFile package (dir.join name) = true
      · rw [if_pos there]
        have grown := (reads_parseFiles env session package dir rest).2.2
        exact .present (any_of_grown there grown) (ih session)
      · rw [if_neg there]
        cases parsed : env.frontend.parse (dir.join name) content with
        | error message => exact .refused read parsed (eq_false_of_ne_true there)
        | ok file =>
          dsimp only
          have here := containsFile_addFile (session.record (.parse (dir.join name))) package
            { file with path := dir.join name }
          generalize (session.record (.parse (dir.join name))).addFile package
            { file with path := dir.join name } = next at here
          have grown := (reads_parseFiles env next package dir rest).2.2
          exact .present (any_of_grown here grown) (ih next)

/-! ## Locations that agree -/

/-- The package was located so, in the directory that it is held to. -/
structure LocatedAs (session : Session U) (package : String) (located : Located) : Prop where
  remembered : ∃ location, session.located.get? location = some located
  canonical : located.package = package
  holds : session.Holds located

/-- However the package was located, its files are selected alike. -/
def Agreed (session : Session U) (package : String) : Prop :=
  ∀ located other, session.LocatedAs package located → session.LocatedAs package other →
    located.dir = other.dir ∧ located.selection session.config.includeTestFiles =
      other.selection session.config.includeTestFiles

theorem Home.locatedAs {file : SourceFile U} (home : session.Home package file) :
    ∃ located, session.LocatedAs package located := by
  obtain ⟨location, located, there, canonical, holds, -⟩ := home
  exact ⟨located, ⟨location, there⟩, canonical, holds⟩

/-- What agrees later agreed before. -/
theorem Agreed.before (h : after.Agreed package)
    (tests : after.config.includeTestFiles = session.config.includeTestFiles)
    (kept : ∀ located, session.LocatedAs package located → after.LocatedAs package located) :
    session.Agreed package := by
  intro located other first second
  rw [← tests]
  exact h located other (kept located first) (kept other second)

theorem LocatedAs.congr (entries : after.located = session.located)
    (directories : after.directories = session.directories) :
    after.LocatedAs package located ↔ session.LocatedAs package located := by
  have holds : after.Holds located ↔ session.Holds located := by rw [Holds, Holds, directories]
  constructor
  · exact fun h => ⟨entries ▸ h.remembered, h.canonical, holds.1 h.holds⟩
  · exact fun h => ⟨entries ▸ h.remembered, h.canonical, holds.2 h.holds⟩

theorem Locates.locatedAs (locates : Locates env session location located after)
    (h : session.LocatedAs package old) : after.LocatedAs package old := by
  obtain ⟨other, there⟩ := h.remembered
  have remembered := locates.kept there
  obtain ⟨entries, rfl⟩ := locates.frame
  exact ⟨⟨other, remembered⟩, h.canonical, h.holds⟩

theorem Locates.locatedAs_or (locates : Locates env session location located after)
    (h : after.LocatedAs package old) : session.LocatedAs package old ∨ old = located := by
  obtain ⟨other, there⟩ := h.remembered
  rcases locates.known there with before | same
  · obtain ⟨entries, rfl⟩ := locates.frame
    exact .inl ⟨⟨other, before⟩, h.canonical, h.holds⟩
  · exact .inr same

theorem HoldsTo.locatedAs (holdsTo : HoldsTo session located after)
    (h : session.LocatedAs package old) : after.LocatedAs package old := by
  have holds := holdsTo.kept h.holds
  obtain ⟨directories, rfl⟩ := holdsTo.frame
  exact ⟨h.remembered, h.canonical, holds⟩

/-- No other package is held to a directory. -/
theorem HoldsTo.locatedAs_of_ne (holdsTo : HoldsTo session located after)
    (ne : package ≠ located.package) (h : after.LocatedAs package old) :
    session.LocatedAs package old := by
  cases holdsTo with
  | before _ => exact h
  | now free =>
    obtain ⟨dir, held, same⟩ := h.holds
    rw [h.canonical, Table.get?_insert_of_ne _ _ ne, ← h.canonical] at held
    exact ⟨h.remembered, h.canonical, dir, held, same⟩

/-- What it is to read a package from where it was located. -/
structure ReadsAt (env : Environment U) (located : Located) (before after : Session U) : Prop where
  config : after.config = before.config
  checks : after.checks = before.checks
  calls : before.calls <+: after.calls
  here : after.LocatedAs located.package located
  kept : ∀ package old, before.LocatedAs package old → after.LocatedAs package old
  others : ∀ package, package ≠ located.package →
    after.sources.filesOf package = before.sources.filesOf package ∧
      ∀ old, after.LocatedAs package old → before.LocatedAs package old
  grown : before.sources.filesOf located.package <+: after.sources.filesOf located.package
  ended : Exhausted env (after.sources.filesOf located.package)
    located.dir (located.selection before.config.includeTestFiles)
  again : Exhausted env (before.sources.filesOf located.package)
    located.dir (located.selection before.config.includeTestFiles) →
    after.sources = before.sources

theorem readsAt_parseFiles (locates : Locates env session location located between)
    (holdsTo : HoldsTo between located after) :
    ReadsAt env located session (after.perform (parseFiles env located.package located.dir
      (located.selection after.config.includeTestFiles))).2 := by
  have here : after.LocatedAs located.package located := by
    refine ⟨⟨location, ?_⟩, rfl, holdsTo.holds⟩
    obtain ⟨directories, rfl⟩ := holdsTo.frame
    exact locates.there
  have kept : ∀ package old, session.LocatedAs package old → after.LocatedAs package old :=
    fun package old h => holdsTo.locatedAs (locates.locatedAs h)
  have known : ∀ package old, package ≠ located.package →
      after.LocatedAs package old → session.LocatedAs package old := by
    intro package old ne h
    rcases locates.locatedAs_or (holdsTo.locatedAs_of_ne ne h) with before | rfl
    · exact before
    · exact absurd h.canonical.symm ne
  -- up to here nothing was read
  obtain ⟨sources, config, checks, calls⟩ : after.sources = session.sources ∧
      after.config = session.config ∧ after.checks = session.checks ∧
      after.calls = session.calls := by
    obtain ⟨entries, rfl⟩ := locates.frame
    obtain ⟨directories, rfl⟩ := holdsTo.frame
    exact ⟨rfl, rfl, rfl, rfl⟩
  obtain ⟨reads, more, grown⟩ := reads_parseFiles env after located.package located.dir
    (located.selection after.config.includeTestFiles)
  have ended := exhausted_parseFiles env after located.package
    located.dir (located.selection after.config.includeTestFiles)
  have again := @Exhausted.sources_parseFiles U env after located.package located.dir
    (located.selection after.config.includeTestFiles)
  generalize (after.perform (parseFiles env located.package located.dir
    (located.selection after.config.includeTestFiles))).2 = left at reads more grown ended again ⊢
  obtain ⟨read, recorded, rfl⟩ := reads.frame
  have same : ∀ package old, LocatedAs { after with sources := read, calls := recorded } package
      old ↔ after.LocatedAs package old := fun _ _ => LocatedAs.congr rfl rfl
  rw [sources] at grown again
  rw [config] at ended again
  refine ⟨config, checks, calls ▸ more, (same _ located).2 here, fun package old h => ?_,
    fun package ne => ⟨?_, fun old h => ?_⟩, grown, ended, again⟩
  · exact (same package old).2 (kept package old h)
  · rw [reads.others package ne, sources]
  · exact known package old ne ((same package old).1 h)

theorem ReadsAt.tests (reads : ReadsAt env located session after) :
    after.config.includeTestFiles = session.config.includeTestFiles :=
  congrArg Config.includeTestFiles reads.config

theorem ReadsAt.agreed (reads : ReadsAt env located session after) (h : after.Agreed package) :
    session.Agreed package :=
  h.before reads.tests (reads.kept package)

/-! ## The invariant -/

/-- Wherever the package was located, reading comes to none but these files. -/
def CoveredBy (env : Environment U) (session : Session U) (package : String)
    (files : List (SourceFile U)) : Prop :=
  ∀ located, session.LocatedAs package located →
    Exhausted env files located.dir (located.selection session.config.includeTestFiles)

theorem CoveredBy.before (h : CoveredBy env after package files)
    (tests : after.config.includeTestFiles = session.config.includeTestFiles)
    (kept : ∀ located, session.LocatedAs package located → after.LocatedAs package located) :
    CoveredBy env session package files := by
  intro located there
  rw [← tests]
  exact h located (kept located there)

/-- A package was checked from the first of its files: from all of them, as long as its
locations lead to no others. -/
structure CheckedFrom (env : Environment U) (session : Session U) (package : String)
    (checked : Checked) (files : List (SourceFile U)) : Prop where
  prior : files <+: session.sources.filesOf package
  call : ∃ imports, .check package (files.map fun file => file.path) imports ∈ session.calls
  answer : ∃ imported?, env.frontend.check package files imported? = .ok checked
  whole : CoveredBy env session package files → files = session.sources.filesOf package
  covered : session.Agreed package → CoveredBy env session package files

/-- A package that was checked keeps its files when it is read from a location that leads
to no others. -/
theorem CheckedFrom.read_again {first : Located}
    (h : CheckedFrom env session located.package checked files)
    (reads : ReadsAt env located session after)
    (read : session.LocatedAs located.package first) :
    CheckedFrom env after located.package checked files := by
  obtain ⟨imports, call⟩ := h.call
  refine ⟨h.prior.trans reads.grown, ⟨imports, reads.calls.subset call⟩, h.answer,
    fun covered => ?_, fun agreed old there => ?_⟩
  · have whole := h.whole (covered.before reads.tests (reads.kept _))
    have ended := covered located reads.here
    rw [whole, reads.tests] at ended
    rw [whole, reads.again ended]
  · obtain ⟨dir, selection⟩ := agreed old first there (reads.kept _ first read)
    rw [dir, selection, reads.tests]
    exact h.covered (reads.agreed agreed) first read

theorem CheckedFrom.read_other (h : CheckedFrom env session package checked files)
    (reads : ReadsAt env located session after)
    (ne : package ≠ located.package) :
    CheckedFrom env after package checked files := by
  obtain ⟨imports, call⟩ := h.call
  obtain ⟨unread, known⟩ := reads.others package ne
  refine ⟨unread ▸ h.prior, ⟨imports, reads.calls.subset call⟩, h.answer, fun covered => ?_,
    fun agreed => ?_⟩
  · rw [unread]
    exact h.whole (covered.before reads.tests (reads.kept package))
  · exact (h.covered (reads.agreed agreed)).before reads.tests.symm known

/-- Packages whose locations agree were read to the end, and every result is that of files
which are still there. -/
structure Complete (env : Environment U) (session : Session U) : Prop where
  housed : session.Housed
  ended : ∀ package, session.Agreed package →
    CoveredBy env session package (session.sources.filesOf package)
  answered : ∀ package checked, session.checks.get? package = some (.done checked) →
    ∃ files, CheckedFrom env session package checked files

/-- The front end checks no package without files. -/
def NeedsFiles (frontend : Frontend U) : Prop :=
  ∀ package imported? checked, frontend.check package [] imported? ≠ .ok checked

theorem complete_start (env : Environment U) (config : Config) : Complete env (start config) where
  housed := housed_start config
  ended _ _ _ h := by
    obtain ⟨⟨location, there⟩, -, -⟩ := h
    cases there
  answered _ _ done := by cases done

namespace Complete

/-- What was located stays, no file is read, and a new result is that of the files which
are there. -/
theorem update (h : Complete env session) (housed : after.Housed)
    (sources : after.sources = session.sources)
    (tests : after.config.includeTestFiles = session.config.includeTestFiles)
    (same : ∀ package located, after.LocatedAs package located ↔ session.LocatedAs package located)
    (calls : session.calls ⊆ after.calls)
    (answered : ∀ package checked, after.checks.get? package = some (.done checked) →
      session.checks.get? package = some (.done checked) ∨
      (∃ imports, .check package
          ((session.sources.filesOf package).map fun file => file.path) imports ∈ after.calls) ∧
        ∃ imported?,
          env.frontend.check package (session.sources.filesOf package) imported? = .ok checked) :
    Complete env after := by
  have before : ∀ package, after.Agreed package → session.Agreed package :=
    fun package agreed => agreed.before tests fun located => (same package located).2
  have later : ∀ package files, CoveredBy env session package files →
      CoveredBy env after package files :=
    fun package files covered => covered.before tests.symm fun located => (same package located).1
  refine ⟨housed, fun package agreed => ?_, fun package checked done => ?_⟩
  · rw [sources]
    exact later package _ (h.ended package (before package agreed))
  · rcases answered package checked done with done | ⟨⟨imports, call⟩, answer⟩
    · obtain ⟨files, from_⟩ := h.answered package checked done
      obtain ⟨imports, call⟩ := from_.call
      refine ⟨files, sources ▸ from_.prior, ⟨imports, calls call⟩, from_.answer, fun covered => ?_,
        fun agreed => later package files (from_.covered (before package agreed))⟩
      rw [sources]
      exact from_.whole (covered.before tests fun located => (same package located).2)
    · refine ⟨session.sources.filesOf package, sources ▸ List.prefix_rfl, ⟨imports, call⟩, answer,
        fun _ => sources ▸ rfl, fun agreed => ?_⟩
      exact later package _ (h.ended package (before package agreed))

/-- A location that is refused leads to no files. -/
theorem refused (h : Complete env session) (locates : Locates env session location located after)
    (elsewhere : ¬ after.Holds located) : Complete env after := by
  have same : ∀ package old, after.LocatedAs package old ↔ session.LocatedAs package old := by
    intro package old
    refine ⟨fun there => ?_, locates.locatedAs⟩
    rcases locates.locatedAs_or there with before | rfl
    · exact before
    · exact absurd there.holds elsewhere
  have housed := h.housed.locates locates
  obtain ⟨entries, rfl⟩ := locates.frame
  exact h.update housed rfl rfl same (List.Subset.refl _) fun _ _ => .inl

theorem readsAt (h : Complete env session) (needs : NeedsFiles env.frontend)
    (reads : ReadsAt env located session after) (housed : after.Housed) : Complete env after := by
  refine ⟨housed, fun package agreed old there => ?_, fun package checked done => ?_⟩
  · rw [reads.tests]
    by_cases same : package = located.package
    · subst same
      obtain ⟨dir, selection⟩ := agreed old located there reads.here
      rw [reads.tests] at selection
      rw [dir, selection]
      exact reads.ended
    · obtain ⟨files, known⟩ := reads.others package same
      rw [files]
      exact h.ended package (reads.agreed agreed) old (known old there)
  · rw [reads.checks] at done
    obtain ⟨files, from_⟩ := h.answered package checked done
    refine ⟨files, ?_⟩
    by_cases same : package = located.package
    · subst same
      -- the package has a file, which was read from some location
      obtain ⟨imported?, ok⟩ := from_.answer
      have some_file : files ≠ [] := by
        rintro rfl
        exact needs _ _ _ ok
      obtain ⟨file, mem⟩ := List.exists_mem_of_ne_nil _ some_file
      obtain ⟨first, read⟩ := (h.housed.home _ file (from_.prior.subset mem)).locatedAs
      exact from_.read_again reads read
    · exact from_.read_other reads same

theorem loadsTo (h : Complete env session) (needs : NeedsFiles env.frontend)
    (loads : LoadsTo env session location after) : Complete env after := by
  have housed := h.housed.loadsTo loads
  cases loads with
  | nothing => exact h
  | refused locates elsewhere => exact h.refused locates elsewhere
  | read locates holdsTo => exact h.readsAt needs (readsAt_parseFiles locates holdsTo) housed

end Complete

theorem outlasts_complete (needs : NeedsFiles env.frontend) :
    Outlasts env (Complete env) where
  loaded location session h := h.loadsTo needs (loadsTo_loaded session location)
  undecided session package state h undecided := by
    refine h.update ((outlasts_housed env).undecided session package state h.housed undecided) rfl
      rfl (fun _ _ => LocatedAs.congr rfl rfl) (List.Subset.refl _)
      fun other checked done => .inl ?_
    rw [setCheck, Table.get?_insert] at done
    split at done
    · cases Option.some.inj done
      cases undecided
    · exact done
  conclude session package found imports h := by
    refine h.update ((outlasts_housed env).conclude session package found imports h.housed) rfl rfl
      (fun _ _ => LocatedAs.congr rfl rfl) (List.subset_append_left _ _)
      fun other checked done => ?_
    rw [setCheck, Table.get?_insert] at done
    split at done
    · next same =>
      subst same
      exact .inr ⟨⟨imports, List.mem_append_right _ List.mem_cons_self⟩, session.imported? found,
        CheckState.eq_ok_of_ofAnswer (Option.some.inj done)⟩
    · exact .inl done
  request session package h :=
    h.update ((outlasts_housed env).request session package h.housed) rfl rfl
      (fun _ _ => LocatedAs.congr rfl rfl) (List.Subset.refl _) fun _ _ => .inl
  addTags session tags h :=
    h.update ((outlasts_housed env).addTags session tags h.housed) rfl rfl
      (fun _ _ => LocatedAs.congr rfl rfl) (List.Subset.refl _) fun _ _ => .inl

/-! ## Tags -/

/-- Nothing was located that is the package. -/
def Unlocated (session : Session U) (package : String) : Prop :=
  ∀ location located, session.located.get? location = some located → located.package ≠ package

/-- Tags were only added since the origin, and the package was located under some that held
meanwhile. -/
structure LocatedSince (env : Environment U) (roots : Roots) (origin : Session U)
    (package : String) (session : Session U) : Prop where
  grown : NameSet.toList origin.tags ⊆ NameSet.toList session.tags
  located : ∀ location located, session.located.get? location = some located →
    located.package = package →
    ∃ tags, NameSet.toList origin.tags ⊆ NameSet.toList tags ∧
      NameSet.toList tags ⊆ NameSet.toList session.tags ∧ roots.Leads env.tree tags located

theorem locatedSince_of_unlocated (env : Environment U) (roots : Roots)
    (none : origin.Unlocated package) : LocatedSince env roots origin package origin where
  grown := List.Subset.refl _
  located location located there canonical := absurd canonical (none location located there)

theorem lasting_locatedSince {roots : Roots} (search : env.locator = .search roots)
    (origin : Session U) (package : String) :
    Lasting env (LocatedSince env roots origin package) where
  remember session location located h found := by
    refine ⟨h.grown, fun other old there canonical => ?_⟩
    rcases known_of_remember there with before | ⟨rfl, -⟩
    · exact h.located other old before canonical
    · rw [search] at found
      exact ⟨session.tags, h.grown, List.Subset.refl _, Roots.leads_of_locate found⟩
  settle _ _ _ h _ := ⟨h.grown, h.located⟩
  record _ _ h := ⟨h.grown, h.located⟩
  addFile _ _ _ h _ := ⟨h.grown, h.located⟩
  undecided _ _ _ h _ := ⟨h.grown, h.located⟩
  conclude _ _ _ _ h := ⟨h.grown, h.located⟩
  request _ _ h := ⟨h.grown, h.located⟩
  addTags session more h := by
    have grown : NameSet.toList session.tags ⊆ NameSet.toList (session.addTags more).tags :=
      fun tag mem => (NameSet.mem_toList_addAll _ _ _).2 (.inr mem)
    refine ⟨List.Subset.trans h.grown grown, fun location located there canonical => ?_⟩
    obtain ⟨tags, since, until_, leads⟩ := h.located location located there canonical
    exact ⟨tags, since, List.Subset.trans until_ grown, leads⟩

/-- Under the same tags every location of a package leads to the same files. -/
theorem LocatedSince.agreed {roots : Roots} (h : LocatedSince env roots origin package session)
    (tags : session.tags = origin.tags) : session.Agreed package := by
  have leads : ∀ located, session.LocatedAs package located →
      roots.Leads env.tree origin.tags located := by
    intro located there
    obtain ⟨location, remembered⟩ := there.remembered
    obtain ⟨between, since, until_, leads⟩ := h.located location located remembered there.canonical
    rw [tags] at until_
    rwa [NameSet.ext_toList fun tag => ⟨fun mem => until_ mem, fun mem => since mem⟩] at leads
  intro located other first second
  have same : located.dir.same other.dir = true := by
    obtain ⟨dir, there, same⟩ := first.holds
    obtain ⟨dir', there', same'⟩ := second.holds
    rw [first.canonical, ← second.canonical, there'] at there
    cases there
    rw [FilePath.same_iff] at same same' ⊢
    exact same.symm.trans same'
  have dir := (leads located first).dir_eq_of_same (leads other second) same
  exact ⟨dir, (leads located first).selection_eq (leads other second) dir _⟩

end GoAtlas.Session

namespace GoAtlas

/-! ## What is reported -/

/-- The files of the package that a call hands to the checker. -/
def Call.filesOf? (package : String) : Call → Option (List FilePath)
  | .parse _ => none
  | .check other files _ => if other = package then some files else none

namespace Session

variable {U : Type} {session : Session U} {package : String}
variable {files : List String} {location : String}

/-- The files that the package was handed to the checker with. -/
def handed? (session : Session U) (package : String) : Option (List FilePath) :=
  session.calls.findSome? (Call.filesOf? package)

/-- There is one call for a package. -/
theorem Accounted.handed?_eq (h : session.Accounted) {paths : List FilePath}
    {imports : List (String × Option String)}
    (call : .check package paths imports ∈ session.calls) :
    session.handed? package = some paths := by
  have own : Call.filesOf? package (.check package paths imports) = some paths := if_pos rfl
  cases handed : session.handed? package with
  | none =>
    have nothing := List.findSome?_eq_none_iff.1 handed _ call
    cases own.symm.trans nothing
  | some others =>
    obtain ⟨other, mem, files⟩ := List.exists_of_findSome?_eq_some handed
    cases other with
    | parse path => cases files
    | check name given imports' =>
      rw [Call.filesOf?] at files
      split at files
      · next same =>
        subst same
        have unique := h.files_unique call mem
        rw [unique, files]
      · cases files

/-- The record of a package that was asked for reports its files. -/
theorem Accounted.reports (h : session.Accounted) (indexed : session.sources.Indexed)
    {env : Environment U} {atlas : Atlas} (made : session.atlas env = .ok atlas)
    (requested : session.requested.contains package = true) :
    ∃ record, atlas.packages.get? package = some record ∧
      (∀ path, record.imports.contains path = true ↔
        ∃ file ∈ session.sources.filesOf package, ∃ literal ∈ file.imports,
          ImportPath.canonical literal = path) ∧
      record.comments = (SourceFile.lastComments? (session.sources.filesOf package)).getD [] ∧
      record.docComments = (SourceFile.lastDoc? (session.sources.filesOf package)).getD [] := by
  obtain ⟨checked, -, known⟩ := h.checked?_of_requested requested
  have surveyed := surveyed_foldl env session session.nodup_requestedPackages
    (fun path _ => Atlas.unsurveyed_empty path) (h.mem_requestedPackages.2 requested) known
  cases h.atlas_eq.symm.trans made
  obtain ⟨record, recorded⟩ := (Table.contains_iff _ _).1 surveyed.recorded
  have record_eq := Atlas.package_of_get? recorded
  refine ⟨record, recorded, surveyed.record_imports indexed recorded, ?_, ?_⟩
  · rw [← record_eq]
    exact surveyed.comments
  · rw [← record_eq]
    exact surveyed.docComments

theorem serve_append (env : Environment U) (earlier later : List Request) :
    session.serve env (earlier ++ later) = (session.serve env earlier).serve env later :=
  List.foldl_append

theorem needsFiles_source : NeedsFiles Source.frontend := by
  intro package imported? checked ok
  cases ok

/-- Over one tree, whatever is asked of a session: a package that is checked without
complaints was checked from the first of its files, in their order. If its locations lead
to no others, these are all its files, and the atlas reports the imports and the comments
of these files only. This is so where its locations agree; and they agree where search
roots are used and no new tag was added since the package was not located yet. -/
theorem checked_files_reported (locator : Locator) (tree : FileTree) (config : Config)
    (requests : List Request) :
    let env : Environment SourceTree := { frontend := Source.frontend, locator, tree }
    let session := (start config).serve env requests
    ∃ atlas, session.atlas env = .ok atlas ∧
      (∀ package checked, session.checks.get? package = some (.done checked) →
        ∃ files imported?, files <+: session.sources.filesOf package ∧
          session.handed? package = some (files.map fun file => file.path) ∧
          Source.frontend.check package files imported? = .ok checked ∧
          (CoveredBy env session package files → session.sources.filesOf package = files ∧
            (session.requested.contains package = true →
              ∃ record, atlas.packages.get? package = some record ∧
                (∀ path, record.imports.contains path = true ↔
                  ∃ file ∈ files, ∃ literal ∈ file.imports,
                    ImportPath.canonical literal = path) ∧
                record.comments = (SourceFile.lastComments? files).getD [] ∧
                record.docComments = (SourceFile.lastDoc? files).getD [])) ∧
          (session.Agreed package → CoveredBy env session package files)) ∧
      ∀ roots earlier later package, locator = .search roots → requests = earlier ++ later →
        ((start config).serve env earlier).Unlocated package →
        session.tags = ((start config).serve env earlier).tags → session.Agreed package := by
  intro env session
  have accounted : session.Accounted :=
    (proceeds_serve (.refl (accounted_start config)) requests).accounted
  have grounded : Grounded Source.frontend session :=
    (lasting_grounded env).serve (grounded_start _ config) requests
  have complete : Complete env session :=
    (outlasts_complete needsFiles_source).serve (complete_start env config) requests
  refine ⟨_, accounted.atlas_eq, fun package checked done => ?_,
    fun roots earlier later package search split unlocated tags => ?_⟩
  · obtain ⟨files, from_⟩ := complete.answered package checked done
    obtain ⟨imports, call⟩ := from_.call
    obtain ⟨imported?, ok⟩ := from_.answer
    refine ⟨files, imported?, from_.prior, accounted.handed?_eq call, ok, fun covered => ?_,
      from_.covered⟩
    have whole := from_.whole covered
    refine ⟨whole.symm, fun requested => ?_⟩
    rw [whole]
    exact accounted.reports grounded.indexed accounted.atlas_eq requested
  · have since : LocatedSince env roots ((start config).serve env earlier) package session := by
      have start := locatedSince_of_unlocated env roots unlocated
      have lasts := (lasting_locatedSince search _ package).serve start later
      rwa [← serve_append, ← split] at lasts
    exact since.agreed tags

/-- A package with a comment. -/
def commentedSource : Environment SourceTree :=
  topSource (({} : FileTree).put ⟨"/p/doc.go"⟩
    (.text "// Package p has a type.\npackage p\n\ntype A int\n"))

/-- The package is added by two locations, after the last tag. -/
def twiceRequested : List Request :=
  [.addTags ["extra"], .command (.add "p"), .command (.add "./p")]

def twiceAdded : Session SourceTree :=
  (start {}).serve commentedSource twiceRequested

/-- The file is checked, and its comment is reported. -/
theorem checked_files_reported_twiceAdded : twiceAdded.handed? "p" = some [⟨"/p/doc.go"⟩] ∧
    ∃ atlas record, twiceAdded.atlas commentedSource = .ok atlas ∧
      atlas.packages.get? "p" = some record ∧ record.docComments = ["Package p has a type."] := by
  obtain ⟨atlas, made, reported, agrees⟩ :=
    checked_files_reported commentedSource.locator commentedSource.tree {} twiceRequested
  have accounted : twiceAdded.Accounted := (proceeds_serve (.refl (accounted_start {})) _).accounted
  obtain ⟨requested, paths, doc, tags⟩ : twiceAdded.requested.contains "p" = true ∧
      (twiceAdded.sources.filesOf "p").map (fun file => file.path) = [⟨"/p/doc.go"⟩] ∧
      SourceFile.lastDoc? (twiceAdded.sources.filesOf "p") = some ["Package p has a type."] ∧
      NameSet.toList twiceAdded.tags =
        NameSet.toList ((start {} : Session SourceTree).addTags ["extra"]).tags := by
    decide +kernel
  have agreed : twiceAdded.Agreed "p" := by
    refine agrees _ [.addTags ["extra"]] _ "p" rfl rfl (fun _ _ there => ?_) ?_
    · cases there
    · apply NameSet.ext_toList
      intro name
      exact iff_of_eq (congrArg (name ∈ ·) tags)
  obtain ⟨checked, done⟩ := accounted.requested "p" requested
  obtain ⟨files, -, -, handed, -, whole, covered⟩ := reported "p" checked done
  obtain ⟨same, recorded⟩ := whole (covered agreed)
  obtain ⟨record, there, -, -, documented⟩ := recorded requested
  rw [← same] at handed documented
  refine ⟨handed.trans (congrArg some paths), atlas, record, made, there, documented.trans ?_⟩
  exact congrArg (Option.getD · []) doc

/-! ## A file that comes with a tag -/

section Ahead

variable {env : Environment U} {location : String} {located : Located}

/-- The package at a location is loaded, checked and asked for. -/
def addLoaded (env : Environment U) (depth : Nat) (location : String) : Task U Unit := do
  let package ← load env location
  check env (importAt env depth) package
  modify fun session => session.request package

/-- A location that was not located before may as well be located ahead. -/
theorem perform_add_ahead (new : session.located.get? location = none)
    (found : env.locator.locate env.tree session.tags location = .ok located) :
    session.perform (add env location) = (session.remember location located).perform
      (addLoaded env (importDepth env session) location) := by
  rw [add, perform_get_bind]
  rw [importRequested, perform_bind, perform_loaded_new new, load, perform_bind,
    perform_locate_remember new found, ← perform_bind, ← load, ← perform_bind, ← addLoaded]

end Ahead

/-- A file that counts where a tag holds. -/
def taggedText : String :=
  "//go:build extra\n\n// Package p has more.\npackage p\n\nimport \"q\"\n\ntype B int\n"

def taggedTree : FileTree :=
  (({} : FileTree).put ⟨"/p/a.go"⟩ (.text "package p\n\ntype A int\n")).put ⟨"/p/doc.go"⟩
    (.text taggedText)

def taggedSource : Environment SourceTree :=
  topSource taggedTree

def taggedPackage (files : List String) : Located :=
  { importPath := "p", dir := ⟨"/p"⟩, files, testFiles := [] }

theorem filesIn_taggedTree : taggedTree.filesIn ["p"] = ["a.go", "doc.go"] := by
  have entries : taggedTree.entries = [(["p", "doc.go"], .text taggedText),
      (["p", "a.go"], .text "package p\n\ntype A int\n"), (["p"], .directory)] := by decide +kernel
  simp [FileTree.filesIn, entries, List.isPrefixOf?, Entry.isFile, List.mergeSort]

theorem locate_taggedPackage {tags : NameSet}
    (place : topRoots.directory taggedTree location = .ok (["p"], "p"))
    (names : Roots.selected taggedTree tags (Place.path ["p"]) ["a.go", "doc.go"] = .ok files)
    (found : (taggedPackage files).hasSource = true)
    (plain : files.partition isTestName = ([], files)) :
    topRoots.locate taggedTree tags location = .ok (taggedPackage files) := by
  have sources : ["a.go", "doc.go"].filter isSourceName = ["a.go", "doc.go"] := by decide +kernel
  have dir : Place.path ["p"] = ⟨"/p"⟩ := by decide +kernel
  simp only [Roots.locate, place, bind, Except.bind, filesIn_taggedTree, sources, names, plain]
  rw [dir, ← taggedPackage, found]
  rfl

/-- The session after the package is added by a location that selects the files. -/
def addedFrom (session : Session SourceTree) (location : String) (files : List String) :
    Session SourceTree :=
  ((session.remember location (taggedPackage files)).perform
    (addLoaded taggedSource (importDepth taggedSource session) location)).2

theorem run_add_tagged {session : Session SourceTree} (new : session.located.get? location = none)
    (found : topRoots.locate taggedTree session.tags location = .ok (taggedPackage files)) :
    (Request.command (.add location)).run taggedSource session =
      session.addedFrom location files :=
  congrArg Prod.snd (perform_add_ahead new found)

/-- The package is added, and added again by another location once the tag holds. -/
def tagBetween : Session SourceTree :=
  (start {}).serve taggedSource
    [.command (.add "p"), .addTags ["extra"], .command (.add "./p")]

theorem tagBetween_eq : tagBetween =
    (((start {}).addedFrom "p" ["a.go"]).addTags ["extra"]).addedFrom "./p"
      ["a.go", "doc.go"] := by
  have first : (Request.command (.add "p")).run taggedSource (start {}) =
      (start {}).addedFrom "p" ["a.go"] := by
    apply run_add_tagged rfl
    apply locate_taggedPackage <;> decide +kernel
  rw [tagBetween, serve, List.foldl_cons, first, List.foldl_cons, Request.run]
  apply run_add_tagged
  · decide +kernel
  · apply locate_taggedPackage <;> decide +kernel

/-- A package is checked from one file, and the atlas reports an import and a comment of
another. -/
theorem added_after_check :
    (∃ checked, tagBetween.checks.get? "p" = some (.done checked)) ∧
    tagBetween.handed? "p" = some [⟨"/p/a.go"⟩] ∧
    (tagBetween.sources.filesOf "p").map (fun file => file.path) =
      [⟨"/p/a.go"⟩, ⟨"/p/doc.go"⟩] ∧
    ∃ atlas record, tagBetween.atlas taggedSource = .ok atlas ∧
      atlas.packages.get? "p" = some record ∧ record.imports.contains "q" = true ∧
      record.docComments = ["Package p has more."] := by
  have accounted : tagBetween.Accounted :=
    (proceeds_serve (.refl (accounted_start {})) _).accounted
  have grounded : Grounded Source.frontend tagBetween :=
    (lasting_grounded taggedSource).serve (grounded_start _ {}) _
  obtain ⟨requested, handed, paths, imports, doc⟩ :
      tagBetween.requested.contains "p" = true ∧
      tagBetween.handed? "p" = some [⟨"/p/a.go"⟩] ∧
      (tagBetween.sources.filesOf "p").map (fun file => file.path) =
        [⟨"/p/a.go"⟩, ⟨"/p/doc.go"⟩] ∧
      (∃ file ∈ tagBetween.sources.filesOf "p", ∃ literal ∈ file.imports,
        ImportPath.canonical literal = "q") ∧
      SourceFile.lastDoc? (tagBetween.sources.filesOf "p") = some ["Package p has more."] := by
    rw [tagBetween_eq]
    decide +kernel
  obtain ⟨record, recorded, imported, -, documented⟩ :=
    accounted.reports grounded.indexed accounted.atlas_eq requested
  rw [doc] at documented
  exact ⟨accounted.requested "p" requested, handed, paths, _, record, accounted.atlas_eq, recorded,
    (imported "q").2 imports, documented⟩

end Session

end GoAtlas
