import Mathlib.Logic.Relation
import GoAtlas.Proofs.Session.Cycle
import GoAtlas.Proofs.Session.Unbounded

/-!
# Circular imports are found exactly

In a new session a package is added by a search of the imports, depth first. Each package
in progress leads to the one that is imported (`TransGen` of `Links`), so an import of a
package in progress closes a cycle. And a package whose check is over reaches no cycle
(`Clear`), because all that it imports was over before it.

Both hold as long as no import failed fatally, and a fatal failure is a cycle that was
found. So adding a package reports a circular import if and only if it leads to a cycle, and
names a package on one (`circular_iff`). This is for packages that are imported by their own
paths: where a package is reached under several paths, or held to another directory, there
are other fatal failures. And it is for packages whose checks end: one that does not keeps the
search from the cycle behind it (`unending_before_cycle`).
-/

namespace GoAtlas.Session

open Relation

variable {U : Type} {env : Environment U} {roots : Roots} {origin session after : Session U}
  {location package literal target root : String} {located : Located}
variable {path : String} {literals : List String}

/-! ## The graph -/

/-- The package at the location has a file to read. -/
def Resolvable (env : Environment U) (roots : Roots) (origin : Session U)
    (location : String) : Prop :=
  ∃ located, roots.locate env.tree origin.tags location = .ok located ∧
    located.selection origin.config.includeTestFiles ≠ []

/-- A file of the package at the location imports the literal. -/
def Writes (env : Environment U) (roots : Roots) (origin : Session U)
    (location literal : String) : Prop :=
  ∃ located, roots.locate env.tree origin.tags location = .ok located ∧
    ∃ name ∈ located.selection origin.config.includeTestFiles, ∃ file,
      env.file? (located.dir.join name) = some file ∧ literal ∈ file.imports

/-- The package at the location imports another one that has a file to read. -/
structure Links (env : Environment U) (roots : Roots) (origin : Session U)
    (location target : String) : Prop where
  writes : Writes env roots origin location target
  apart : target ≠ location
  resolvable : Resolvable env roots origin target

/-- No cycle can be reached. -/
def Clear (env : Environment U) (roots : Roots) (origin : Session U) (location : String) : Prop :=
  ∀ looped, ReflTransGen (Links env roots origin) location looped →
    ¬ TransGen (Links env roots origin) looped looped

/-- A cycle is reached by way of an import. -/
theorem clear_of_links (h : ∀ target, Links env roots origin location target →
    Clear env roots origin target) : Clear env roots origin location := by
  intro looped way cycle
  rcases ReflTransGen.cases_head way with rfl | ⟨target, edge, way⟩
  · obtain ⟨target, edge, way⟩ := TransGen.head'_iff.1 cycle
    exact h target edge location way cycle
  · exact h target edge looped way cycle

/-- What is asked of a location: its package goes under the location itself, can be read and
is checked to the end, if there is one. -/
structure Plain (env : Environment U) (roots : Roots) (origin : Session U)
    (location : String) : Prop where
  path : ∀ located : Located, roots.locate env.tree origin.tags location = located.answer →
    located.importPath = location ∧ ImportPath.canonical location = location
  accessible : ∀ path cause, roots.locate env.tree origin.tags location ≠
    .error (.unreadable path cause)
  readable : ∀ located, roots.locate env.tree origin.tags location = .ok located →
    ∀ name ∈ located.selection origin.config.includeTestFiles,
      (env.file? (located.dir.join name)).isSome = true
  ends : ∀ located, roots.locate env.tree origin.tags location = .ok located →
    CheckEnds env origin located

/-! ## The session -/

/-- The packages of the session stand under their own paths, in their own directories. -/
structure Tracks (env : Environment U) (roots : Roots) (origin session : Session U) : Prop where
  sound : Sound env roots origin [] session
  traced : Traced env roots origin session
  located : ∀ location located, session.located.get? location = some located →
    roots.locate env.tree origin.tags location = located.answer ∧ located.package = location
  directories : ∀ package dir, session.directories.get? package = some dir →
    ∃ located : Located, roots.locate env.tree origin.tags package = located.answer ∧
      located.dir = dir

theorem tracks_start (env : Environment U) (roots : Roots) (config : Config) :
    Tracks env roots (start config) (start config) where
  sound := sound_start env roots config
  traced := traced_start env roots config
  located _ _ there := by cases there
  directories _ _ there := by cases there

namespace Tracks

variable (h : Tracks env roots origin session)

include h

theorem setCheck (package : String) (state : CheckState) :
    Tracks env roots origin (session.setCheck package state) where
  sound := h.sound.frame _ _
  traced := ⟨h.traced.tags, h.traced.located, h.traced.indexed⟩
  located := h.located
  directories := h.directories

theorem record (call : Call) : Tracks env roots origin (session.record call) where
  sound := h.sound.frame _ _
  traced := ⟨h.traced.tags, h.traced.located, h.traced.indexed⟩
  located := h.located
  directories := h.directories

/-- The files of a package that is loaded are those that are selected where it is found. -/
theorem files_eq (plain : Plain env roots origin package)
    (ne : session.sources.filesOf package ≠ []) :
    ∃ located, roots.locate env.tree origin.tags package = .ok located ∧
      located.selection origin.config.includeTestFiles ≠ [] ∧
      session.sources.filesOf package =
        (located.selection origin.config.includeTestFiles).filterMap
          fun name => env.file? (located.dir.join name) := by
  obtain ⟨source, read⟩ := h.sound.files package ne
  obtain ⟨located, found, dir⟩ := h.directories package source.dir read.directory
  have same := read.leads.selection_eq ⟨package, found⟩ dir.symm origin.config.includeTestFiles
  have files := read.files
  rw [← dir, same] at files
  have some_file : located.selection origin.config.includeTestFiles ≠ [] := by
    intro empty
    rw [files, empty] at ne
    exact ne rfl
  have ok := found.trans (Located.answer_of_selection some_file)
  rw [Environment.readable_of_all (plain.readable located ok)] at files
  exact ⟨located, ok, some_file, files⟩

theorem ends (thorough : env.frontend.Thorough) (plain : Plain env roots origin package) :
    env.frontend.Ends package (session.sources.filesOf package) := by
  by_cases empty : session.sources.filesOf package = []
  · rw [empty]
    exact thorough.nothing package
  · obtain ⟨located, found, some_file, files⟩ := h.files_eq plain empty
    obtain ⟨path, canonical⟩ :=
      plain.path located (found.trans (Located.answer_of_selection some_file).symm)
    have ends := plain.ends located found
    rw [CheckEnds, Environment.readable_of_all (plain.readable located found), Located.package,
      path, canonical, ← files] at ends
    exact ends

/-- The imports of a package that is loaded are those it writes. -/
theorem mem_importsOf_iff (plain : Plain env roots origin package)
    (ne : session.sources.filesOf package ≠ []) (literal : String) :
    literal ∈ session.sources.importsOf package ↔ Writes env roots origin package literal := by
  obtain ⟨located, found, -, files⟩ := h.files_eq plain ne
  rw [h.traced.indexed package literal, files]
  constructor
  · rintro ⟨file, mem, names⟩
    obtain ⟨name, mem, read⟩ := List.mem_filterMap.1 mem
    exact ⟨located, found, name, mem, file, read, names⟩
  · rintro ⟨other, found', name, mem, file, read, names⟩
    cases found.symm.trans found'
    exact ⟨file, List.mem_filterMap.2 ⟨name, mem, read⟩, names⟩

section Loading

variable (search : env.locator = .search roots) (plain : Plain env roots origin location)
variable {between : Session U}

include search plain

/-- A location leads to its own package. -/
theorem own (locates : Locates env session location located after) :
    roots.locate env.tree origin.tags location = located.answer ∧ located.package = location := by
  cases locates with
  | before there => exact h.located location located there
  | now new found =>
    unfold Environment.Finds at found
    rw [search, h.traced.tags] at found
    have answer := Roots.answer_of_locate found
    obtain ⟨path, canonical⟩ := plain.path located answer
    exact ⟨answer, by rw [Located.package, path, canonical]⟩

theorem located_of_locates (locates : Locates env session location located after)
    {other : String} {old : Located} (there : after.located.get? other = some old) :
    session.located.get? other = some old ∨ other = location ∧ old = located := by
  have own := (h.own search plain locates).2
  cases locates with
  | before _ => exact .inl there
  | now new found =>
    rw [remember, own, Table.get?_insertIfNew, Table.get?_insert_self] at there
    split at there
    · next same => exact .inr ⟨same, (Option.some.inj there).symm⟩
    · next apart =>
      rw [Table.get?_insert_of_ne _ _ apart] at there
      exact .inl there

theorem directory_of_holdsTo (locates : Locates env session location located between)
    (holdsTo : HoldsTo between located after) {package : String} {dir : FilePath}
    (there : after.directories.get? package = some dir) :
    session.directories.get? package = some dir ∨ package = location ∧ dir = located.dir := by
  have own := (h.own search plain locates).2
  have same : between.directories = session.directories := by cases locates <;> rfl
  cases holdsTo with
  | before _ => exact .inl (same ▸ there)
  | now free =>
    rw [own, same, Table.get?_insert] at there
    split at there
    · next same => exact .inr ⟨same, (Option.some.inj there).symm⟩
    · exact .inl there

theorem loadsTo (loads : LoadsTo env session location after)
    (sound : Sound env roots origin [] after) (traced : Traced env roots origin after) :
    Tracks env roots origin after := by
  have stands {between : Session U} {located other' : Located}
      (locates : Locates env session location located between) {other : String}
      (there : between.located.get? other = some other') :
      roots.locate env.tree origin.tags other = other'.answer ∧
        other'.package = other := by
    rcases h.located_of_locates search plain locates there with before | ⟨rfl, rfl⟩
    · exact h.located other other' before
    · exact h.own search plain locates
  cases loads with
  | nothing => exact h
  | refused locates elsewhere =>
    refine ⟨sound, traced, fun other old => stands locates, ?_⟩
    obtain ⟨entries, rfl⟩ := locates.frame
    exact h.directories
  | @read located between held locates holdsTo =>
    obtain ⟨entries, directories⟩ := @perform_parseFiles_frame U env held
      located.package located.dir
      (located.selection held.config.includeTestFiles)
    have same : held.located = between.located := by cases holdsTo <;> rfl
    refine ⟨sound, traced, fun other old there => ?_, fun package dir there => ?_⟩
    · rw [entries, same] at there
      exact stands locates there
    · rw [directories] at there
      rcases h.directory_of_holdsTo search plain locates holdsTo there with before | ⟨rfl, rfl⟩
      · exact h.directories package dir before
      · exact ⟨located, (h.own search plain locates).1, rfl⟩

theorem loaded (tidy : env.tree.WellFormed) :
    Tracks env roots origin (session.perform (loaded env location)).2 :=
  h.loadsTo search plain (loadsTo_loaded session location)
    (sound_loaded search tidy h.sound location).1
    ((steady_traced search).keeps_loaded location session h.traced)

theorem locate_cases :
    (∃ located between, session.perform (locate env location) = (.ok located, between) ∧
      Locates env session location located between) ∨
    (∀ located : Located, roots.locate env.tree origin.tags location ≠ located.answer) ∧
      ∃ failure, session.perform (locate env location) = (.error failure, session) ∧
        failure.isRecoverable = true := by
  rcases perform_locate env session location with ⟨failure, missing, faults⟩ | found
  · refine .inr ?_
    rw [search, Locator.locate, h.traced.tags] at faults
    rcases faults with ⟨path, searched, reason, lost, rfl⟩ | ⟨path, cause, broken, -⟩
    · refine ⟨fun located same => ?_, _, missing, rfl⟩
      rw [lost, Located.answer] at same
      split at same <;> cases same
    · exact absurd broken (plain.accessible path cause)
  · exact .inl found

/-- A package is held to no directory but its own. -/
theorem settle_own (locates : Locates env session location located between) :
    ∃ held, between.perform (settle location located.dir) = (.ok (), held) ∧
      held.config = origin.config := by
  have answer := (h.own search plain locates).1
  have frame : between.directories = session.directories ∧ between.config = origin.config := by
    obtain ⟨entries, rfl⟩ := locates.frame
    exact ⟨rfl, h.sound.config⟩
  rw [perform_settle, frame.1]
  cases there : session.directories.get? location with
  | none => exact ⟨_, rfl, frame.2⟩
  | some dir =>
    obtain ⟨other, answer', rfl⟩ := h.directories location dir there
    obtain rfl := Roots.answer_injective (answer.symm.trans answer')
    have same : located.dir.same located.dir = true := beq_self_eq_true _
    dsimp only
    rw [if_pos same]
    exact ⟨between, rfl, frame.2⟩

/-- The package at a location is loaded if it has a file to read, and otherwise passed
over. -/
theorem load_cases :
    Resolvable env roots origin location ∧
      (session.perform (load env location)).1 = .ok location ∨
    ¬ Resolvable env roots origin location ∧
      ∃ failure, (session.perform (load env location)).1 = .error failure ∧
        failure.isRecoverable = true := by
  rw [load, perform_bind]
  rcases h.locate_cases search plain with
    ⟨located, between, found, locates⟩ | ⟨lost, failure, missing, passed⟩
  swap
  · rw [missing]
    refine .inr ⟨?_, failure, rfl, passed⟩
    rintro ⟨located, found, ne⟩
    exact lost located (found.trans (Located.answer_of_selection ne).symm)
  obtain ⟨answer, canonical⟩ := h.own search plain locates
  obtain ⟨held, settles, config⟩ := h.settle_own search plain locates
  rw [found]
  dsimp only
  rw [canonical, perform_bind, settles]
  dsimp only
  rw [perform_get_bind]
  rw [config, ← Located.selection]
  by_cases empty : located.selection origin.config.includeTestFiles = []
  · rw [if_pos (List.isEmpty_iff.2 empty)]
    refine .inr ⟨?_, _, rfl, rfl⟩
    rintro ⟨other, found', ne⟩
    have same := Roots.answer_injective
      (answer.symm.trans (found'.trans (Located.answer_of_selection ne).symm))
    exact ne (same ▸ empty)
  · have ok := answer.trans (Located.answer_of_selection empty)
    rw [if_neg (fun none => empty (List.isEmpty_iff.1 none)), perform_bind]
    have reads := @parseFiles_of_all U env location located.dir held _ (plain.readable located ok)
    generalize held.perform (parseFiles env location located.dir
      (located.selection origin.config.includeTestFiles)) = outcome at reads
    obtain ⟨result, read⟩ := outcome
    cases reads
    exact .inl ⟨⟨located, ok, empty⟩, rfl⟩

theorem loaded_cases :
    Resolvable env roots origin location ∧
      (session.perform (Session.loaded env location)).1 = .ok location ∨
    ¬ Resolvable env roots origin location ∧
      ∃ failure, (session.perform (Session.loaded env location)).1 = .error failure ∧
        failure.isRecoverable = true := by
  obtain same | ⟨located, there, has, same⟩ := perform_loaded env session location
  · exact same ▸ h.load_cases search plain
  · rw [(h.located location located there).2] at has same
    obtain ⟨other, found, ne, -⟩ := h.files_eq plain ((h.sound.dense location).1 has)
    exact .inl ⟨⟨other, found, ne⟩, congrArg Prod.fst same⟩

end Loading

end Tracks

/-! ## The search -/

theorem Writes.resolvable (h : Writes env roots origin location literal) :
    Resolvable env roots origin location := by
  obtain ⟨located, found, name, mem, -⟩ := h
  exact ⟨located, found, List.ne_nil_of_mem mem⟩

/-- The package is on a cycle that the location leads to. -/
def OnCycle (env : Environment U) (roots : Roots) (origin : Session U)
    (location package : String) : Prop :=
  ReflTransGen (Links env roots origin) location package ∧
    TransGen (Links env roots origin) package package

theorem OnCycle.resolvable (h : OnCycle env roots origin location package) :
    Resolvable env roots origin location := by
  obtain ⟨target, edge, -⟩ := TransGen.head'_iff.1 (h.2.trans_right h.1)
  exact edge.writes.resolvable

theorem OnCycle.head (h : OnCycle env roots origin target package)
    (writes : Writes env roots origin location target) (apart : target ≠ location) :
    OnCycle env roots origin location package :=
  ⟨.head ⟨writes, apart, h.resolvable⟩ h.1, h.2⟩

/-- The package at the location may be imported: the search is not on a cycle so far, and
comes from the packages in progress. -/
structure Ready (env : Environment U) (roots : Roots) (origin session : Session U)
    (location : String) : Prop where
  tracks : Tracks env roots origin session
  apart : session.Apart
  clear : ∀ package, session.Concluded package → Clear env roots origin package
  leads : ∀ package, session.checks.get? package = some .inProgress →
    Resolvable env roots origin location → TransGen (Links env roots origin) package location

/-- What comes of importing or checking the package at a location: a fatal failure is a
cycle, and otherwise the package is over and the search is not on a cycle. -/
structure Explored {α : Type} (env : Environment U) (roots : Roots) (origin session : Session U)
    (location : String) (outcome : Except Failure α × Session U) : Prop where
  tracks : Tracks env roots origin outcome.2
  settles : Settles session outcome.2
  apart : outcome.2.Apart
  cyclic : ∀ failure, outcome.1 = .error failure → failure.isRecoverable = true ∨
    ∃ package, failure = .circularDependency package ∧ OnCycle env roots origin location package
  clear : isFatal outcome.1 = false →
    ∀ package, outcome.2.Concluded package → Clear env roots origin package
  concluded : isFatal outcome.1 = false → Resolvable env roots origin location →
    outcome.2.Concluded location

/-- What comes of an import: only a fatal failure is not passed over. -/
structure Entered {α : Type} (env : Environment U) (roots : Roots) (origin session : Session U)
    (location : String) (outcome : Except Failure α × Session U) : Prop
    extends Explored env roots origin session location outcome where
  fatal : ∀ failure, outcome.1 = .error failure → failure.isRecoverable = false

/-- What comes of importing literals that a package writes. -/
structure ExploredAll {α : Type} (env : Environment U) (roots : Roots) (origin session : Session U)
    (package : String) (literals : List String) (outcome : Except Failure α × Session U) :
    Prop where
  tracks : Tracks env roots origin outcome.2
  settles : Settles session outcome.2
  apart : outcome.2.Apart
  cyclic : ∀ failure, outcome.1 = .error failure →
    ∃ looped, failure = .circularDependency looped ∧ OnCycle env roots origin package looped
  clear : ∀ found, outcome.1 = .ok found →
    ∀ other, outcome.2.Concluded other → Clear env roots origin other
  concluded : ∀ found, outcome.1 = .ok found → ∀ literal ∈ literals, literal ≠ package →
    Resolvable env roots origin literal → outcome.2.Concluded literal

theorem Ready.resolvable (ready : Ready env roots origin session package)
    (plain : Plain env roots origin package) (ne : session.sources.filesOf package ≠ []) :
    Resolvable env roots origin package := by
  obtain ⟨located, found, some_file, -⟩ := ready.tracks.files_eq plain ne
  exact ⟨located, found, some_file⟩

/-- A package whose imports are over reaches no cycle. -/
theorem ExploredAll.explored {found : Table String} (thorough : env.frontend.Thorough)
    (explored : ExploredAll env roots origin (session.setCheck package .inProgress) package
      literals (.ok found, after)) (plain : Plain env roots origin package)
    (whole : ∀ target, Writes env roots origin package target → target ∈ literals)
    (new : session.checks.get? package = none) :
    Explored env roots origin session package (after.perform (runCheck env package found)) := by
  obtain ⟨ends, -, fails⟩ := @perform_runCheck U env after package found
  have unchecked := not_concluded_of_inProgress
    (explored.settles.states package .inProgress (Table.get?_insert_self ..))
  have returned : Returned (after.perform (runCheck env package found)).1 :=
    explored.apart.returned_runCheck unchecked (explored.tracks.ends thorough plain)
  have clear : Clear env roots origin package := clear_of_links fun target edge =>
    explored.clear found rfl target (explored.concluded found rfl target
      (whole target edge.writes) edge.apart edge.resolvable)
  refine ⟨?_, ?_, ?_, fun failure failed => ?_, fun _ other ended => ?_, fun _ _ => ?_⟩
  · rw [ends]
    exact (explored.tracks.record _).setCheck package _
  · rw [ends]
    exact .conclude new (explored.settles.record _) (CheckState.isOver_ofAnswer _)
  · rw [ends]
    exact explored.apart.check unchecked thorough found _
  · rcases fails failure failed with ⟨rfl, -⟩ | ⟨passed, -⟩
    · rw [failed] at returned
      exact returned.elim
    · exact .inl passed
  · rw [ends] at ended
    obtain ⟨state, there, ended⟩ := ended
    by_cases same : other = package
    · exact same ▸ clear
    · rw [setCheck, Table.get?_insert_of_ne _ _ same] at there
      exact explored.clear found rfl other ⟨state, there, ended⟩
  · rw [ends]
    exact ⟨_, Table.get?_insert_self .., CheckState.isOver_ofAnswer _⟩

/-- A package fails where one of its imports leads to a cycle. -/
theorem ExploredAll.failed {failure : Failure}
    (explored : ExploredAll env roots origin (session.setCheck package .inProgress) package
      literals ((.error failure : Except Failure (Table String)), after))
    (new : session.checks.get? package = none) :
    Explored env roots origin session package
      ((.error failure : Except Failure Unit),
        after.setCheck package (.failed failure.message)) := by
  obtain ⟨looped, rfl, onCycle⟩ := explored.cyclic failure rfl
  have unchecked := not_concluded_of_inProgress
    (explored.settles.states package .inProgress (Table.get?_insert_self ..))
  refine ⟨explored.tracks.setCheck package _, .conclude new explored.settles rfl,
    explored.apart.setCheck unchecked rfl, ?_, ?_, ?_⟩
  · rintro _ ⟨⟩
    exact .inr ⟨looped, rfl, onCycle⟩
  · rintro ⟨⟩
  · rintro ⟨⟩

/-- Nothing is done for a package that was met before; one in progress is imported by way of
itself. -/
theorem Ready.explored_again {importOne : String → Unbounded.Course U (Option String)}
    {state : CheckState} {outcome : Except Failure Unit × Session U}
    (ready : Ready env roots origin session package)
    (resolvable : Resolvable env roots origin package)
    (there : session.checks.get? package = some state)
    (ends : Unbounded.check env importOne package session = some outcome) :
    Explored env roots origin session package outcome := by
  have stays (result : Except Failure Unit)
      (cyclic : ∀ failure, result = .error failure → failure.isRecoverable = true ∨
        ∃ looped, failure = .circularDependency looped ∧ OnCycle env roots origin package looped)
      (ended : isFatal result = false → state.isOver = true) :
      Explored env roots origin session package (result, session) :=
    ⟨ready.tracks, .refl session, ready.apart, cyclic, fun _ => ready.clear,
      fun passed _ => ⟨state, there, ended passed⟩⟩
  unfold Unbounded.check at ends
  rw [there] at ends
  cases state with
  | done checked =>
    cases ends
    exact stays _ (by rintro _ ⟨⟩) fun _ => rfl
  | inProgress =>
    cases ends
    refine stays _ ?_ (by rintro ⟨⟩)
    rintro _ ⟨⟩
    exact .inr ⟨package, rfl, .refl, ready.leads package there resolvable⟩
  | incomplete checked message | failed message =>
    cases ends
    refine stays _ ?_ fun _ => rfl
    rintro _ ⟨⟩
    exact .inl rfl

section Search

variable {importOne : String → Unbounded.Course U (Option String)}
  (one : ∀ literal session outcome, Writes env roots origin package literal →
    Ready env roots origin session literal → importOne literal session = some outcome →
      Entered env roots origin session literal outcome)

include one

theorem exploredAll_importAll {literals : List String} {found : Table String}
    {outcome : Except Failure (Table String) × Session U}
    (written : ∀ literal ∈ literals, Writes env roots origin package literal)
    (tracks : Tracks env roots origin session) (apart : session.Apart)
    (clear : ∀ other, session.Concluded other → Clear env roots origin other)
    (leads : ∀ other, session.checks.get? other = some .inProgress →
      other = package ∨ TransGen (Links env roots origin) other package)
    (ends : Unbounded.importAll importOne package literals found session = some outcome) :
    ExploredAll env roots origin session package literals outcome := by
  induction literals generalizing session found with
  | nil =>
    cases ends
    exact ⟨tracks, .refl session, apart, (by rintro _ ⟨⟩), fun _ _ => clear, (by rintro _ - _ ⟨⟩)⟩
  | cons literal rest ih =>
    have written' := fun other mem => written other (List.mem_cons_of_mem literal mem)
    rw [Unbounded.importAll] at ends
    split at ends
    · next self =>
      have others := ih written' tracks apart clear leads ends
      refine ⟨others.tracks, others.settles, others.apart, others.cyclic, others.clear, ?_⟩
      intro result ok other mem apart
      exact others.concluded result ok other
        ((List.mem_cons.1 mem).resolve_left fun eq => apart (eq.trans self)) apart
    · next other =>
      obtain ⟨⟨result, after⟩, first, ends⟩ := Option.bind_eq_some_iff.1 ends
      have writes := written literal List.mem_cons_self
      have ready : Ready env roots origin session literal := by
        refine ⟨tracks, apart, clear, fun other' during resolvable => ?_⟩
        have edge : Links env roots origin package literal := ⟨writes, other, resolvable⟩
        rcases leads other' during with rfl | way
        · exact .single edge
        · exact way.tail edge
      have explored := one literal session _ writes ready first
      cases result with
      | error failure =>
        cases ends
        refine ⟨explored.tracks, explored.settles, explored.apart, ?_, (by rintro _ ⟨⟩),
          (by rintro _ ⟨⟩)⟩
        rintro _ ⟨⟩
        rcases explored.cyclic failure rfl with passed | ⟨looped, circular, onCycle⟩
        · rw [explored.fatal failure rfl] at passed
          cases passed
        · exact ⟨looped, circular, onCycle.head writes other⟩
      | ok path =>
        have others := ih written' explored.tracks explored.apart (explored.clear rfl)
          (fun other during => leads other
            ((explored.settles.ended other _ during).resolve_right Bool.false_ne_true)) ends
        refine ⟨others.tracks, explored.settles.trans others.settles, others.apart, others.cyclic,
          others.clear, ?_⟩
        intro result ok other mem apart' resolvable
        rcases List.mem_cons.1 mem with rfl | mem
        · exact (explored.concluded rfl resolvable).later others.settles
        · exact others.concluded result ok other mem apart' resolvable

theorem explored_check {outcome : Except Failure Unit × Session U}
    (thorough : env.frontend.Thorough) (plain : Plain env roots origin package)
    (ready : Ready env roots origin session package)
    (ne : session.sources.filesOf package ≠ [])
    (ends : Unbounded.check env importOne package session = some outcome) :
    Explored env roots origin session package outcome := by
  have resolvable := ready.resolvable plain ne
  cases there : session.checks.get? package with
  | some state => exact ready.explored_again resolvable there ends
  | none =>
    unfold Unbounded.check at ends
    rw [there] at ends
    dsimp only at ends
    rw [if_pos ((ready.tracks.sound.dense package).2 ne)] at ends
    obtain ⟨⟨result, after⟩, first, ends⟩ := Option.map_eq_some_iff.1 ends
    have imports := ready.tracks.mem_importsOf_iff plain ne
    have explored := exploredAll_importAll one (fun literal mem => (imports literal).1 mem)
      (ready.tracks.setCheck package .inProgress)
      (ready.apart.setCheck (not_concluded_of_none there) rfl) ?_ ?_ first
    · cases result with
      | ok found =>
        cases ends
        exact explored.explored thorough plain (fun target => (imports target).2) there
      | error failure =>
        cases ends
        exact explored.failed there
    · rintro other ⟨state, during, ended⟩
      rw [setCheck, Table.get?_insert] at during
      split at during
      · cases during
        cases ended
      · exact ready.clear other ⟨state, during, ended⟩
    · intro other during
      rw [setCheck, Table.get?_insert] at during
      split at during
      · next same => exact .inl same
      · exact .inr (ready.leads other during resolvable)

end Search

/-- A failure that is passed over leaves the same session. -/
theorem Explored.answer {α β : Type} {result : Except Failure α} {other : Except Failure β}
    (h : Explored env roots origin session location (result, after))
    (passed : isFatal other = false → isFatal result = false)
    (cyclic : ∀ failure, other = .error failure → result = .error failure) :
    Explored env roots origin session location (other, after) :=
  ⟨h.tracks, h.settles, h.apart, fun failure failed => h.cyclic failure (cyclic failure failed),
    fun passed' => h.clear (passed passed'), fun passed' => h.concluded (passed passed')⟩

section Import

variable (search : env.locator = .search roots) (tidy : env.tree.WellFormed)

include search tidy

/-- The session is ready for the check of a package once that is loaded. -/
theorem Ready.loaded (ready : Ready env roots origin session location)
    (plain : Plain env roots origin location) :
    Ready env roots origin (session.perform (loaded env location)).2 location := by
  have learns := @learns_loaded U env session location
  refine ⟨ready.tracks.loaded search plain tidy, ready.apart.learns learns, ?_, ?_⟩
  · unfold Concluded
    rw [learns.checks]
    exact ready.clear
  · rw [learns.checks]
    exact ready.leads

variable {importOne : String → Unbounded.Course U (Option String)}
  (one : ∀ literal session outcome, Writes env roots origin location literal →
    Ready env roots origin session literal → importOne literal session = some outcome →
      Entered env roots origin session literal outcome)
  (thorough : env.frontend.Thorough) (plain : Plain env roots origin location)
  (ready : Ready env roots origin session location)

include one thorough plain ready

/-- A package that is loaded is checked, and one without a file to read is passed over. -/
theorem loaded_explored :
    (∃ between, session.perform (loaded env location) = (.ok location, between) ∧
      ∀ outcome, Unbounded.check env importOne location between = some outcome →
        Explored env roots origin session location outcome) ∨
    ∃ failure between, session.perform (loaded env location) = (.error failure, between) ∧
      failure.isRecoverable = true ∧ ¬ Resolvable env roots origin location ∧
        Ready env roots origin between location ∧ Settles session between := by
  have settles := (@learns_loaded U env session location).settles
  have files := (sound_loaded search tidy ready.tracks.sound location).2
  have ready' := ready.loaded search tidy plain
  have loads := ready.tracks.loaded_cases search plain
  generalize session.perform (loaded env location) = loading at settles files ready' loads
  obtain ⟨result, between⟩ := loading
  rcases loads with ⟨-, ok⟩ | ⟨missing, failure, failed, passed⟩
  · cases ok
    refine .inl ⟨between, rfl, fun outcome checks => ?_⟩
    have explored := explored_check one thorough plain ready' (files location rfl) checks
    exact { explored with settles := settles.trans explored.settles }
  · cases failed
    exact .inr ⟨failure, between, rfl, passed, missing, ready', settles⟩

theorem entered_enter {outcome : Except Failure (Option String) × Session U}
    (ends : Unbounded.enter env importOne location session = some outcome) :
    Entered env roots origin session location outcome := by
  unfold Unbounded.enter at ends
  rcases loaded_explored search tidy one thorough plain ready with
    ⟨between, loads, explored⟩ | ⟨failure, between, loads, passed, missing, ready', settles⟩
  · rw [loads] at ends
    obtain ⟨⟨result, last⟩, checks, ends⟩ := Option.map_eq_some_iff.1 ends
    have explored := explored _ checks
    cases result with
    | ok value =>
      cases ends
      exact ⟨explored.answer (fun _ => rfl) (by rintro _ ⟨⟩), by rintro _ ⟨⟩⟩
    | error failure =>
      dsimp only at ends
      split at ends
      · next passed =>
        cases ends
        refine ⟨explored.answer (fun _ => ?_) (by rintro _ ⟨⟩), by rintro _ ⟨⟩⟩
        rw [isFatal, passed]
        rfl
      · next fatal =>
        cases ends
        refine ⟨explored.answer id fun _ => ?_, ?_⟩
        · rintro ⟨⟩
          rfl
        · rintro _ ⟨⟩
          exact eq_false_of_ne_true fatal
  · rw [loads] at ends
    dsimp only at ends
    rw [if_pos passed] at ends
    cases ends
    refine ⟨⟨ready'.tracks, settles, ready'.apart, (by rintro _ ⟨⟩), fun _ => ready'.clear, ?_⟩,
      by rintro _ ⟨⟩⟩
    exact fun _ there => absurd there missing

/-- Adding a package fails with a circular import where it leads to a cycle, and names a
package on one. -/
theorem circular_of_request {outcome : Except Failure Unit × Session U}
    (ends : Unbounded.request env importOne location session = some outcome) :
    (∀ package, outcome.1 = .error (.circularDependency package) →
      OnCycle env roots origin location package) ∧
    ∀ package, OnCycle env roots origin location package →
      ∃ looped, outcome.1 = .error (.circularDependency looped) := by
  unfold Unbounded.request at ends
  rcases loaded_explored search tidy one thorough plain ready with
    ⟨between, loads, explored⟩ | ⟨failure, between, loads, passed, missing, -⟩
  · rw [loads] at ends
    obtain ⟨⟨result, last⟩, checks, ends⟩ := Option.map_eq_some_iff.1 ends
    have explored := explored _ checks
    have clear (passed : isFatal result = false) (package : String) :
        ¬ OnCycle env roots origin location package := fun onCycle =>
      explored.clear passed location (explored.concluded passed onCycle.resolvable) package
        onCycle.1 onCycle.2
    cases result with
    | ok value =>
      cases ends
      exact ⟨by rintro _ ⟨⟩, fun package onCycle => absurd onCycle (clear rfl package)⟩
    | error failure =>
      cases ends
      rcases explored.cyclic failure rfl with passed | ⟨looped, rfl, onCycle⟩
      · refine ⟨?_, fun package onCycle => absurd onCycle (clear ?_ package)⟩
        · rintro package ⟨⟩
          cases passed
        · rw [isFatal, passed]
          rfl
      · refine ⟨?_, fun _ _ => ⟨looped, rfl⟩⟩
        rintro package ⟨⟩
        exact onCycle
  · rw [loads] at ends
    cases ends
    refine ⟨?_, fun package onCycle => absurd onCycle.resolvable missing⟩
    rintro package ⟨⟩
    cases passed

end Import

section Asked

variable (search : env.locator = .search roots) (tidy : env.tree.WellFormed)
  (thorough : env.frontend.Thorough)
  (plain : ∀ asked, ReflTransGen (Writes env roots origin) root asked →
    Plain env roots origin asked)

include search tidy thorough plain

theorem entered_importPackage (calls : Nat) (location : String) (session : Session U)
    (outcome : Except Failure (Option String) × Session U)
    (asked : ReflTransGen (Writes env roots origin) root location)
    (ready : Ready env roots origin session location)
    (ends : Unbounded.importPackage env calls location session = some outcome) :
    Entered env roots origin session location outcome := by
  induction calls generalizing location session outcome with
  | zero => cases ends
  | succ calls ih =>
    refine entered_enter search tidy (fun literal session outcome writes => ?_) thorough
      (plain location asked) ready ends
    exact ih literal session outcome (asked.tail writes)

end Asked

/-- In a new session, where the packages that come up go under the locations they are asked
for at, can be read and are checked to the end, adding a package fails with a circular import if
and only if it leads to a cycle of imports, and the package that is named is on such a cycle. -/
theorem circular_iff (search : env.locator = .search roots) (tidy : env.tree.WellFormed)
    (thorough : env.frontend.Thorough) (config : Config) (location : String)
    (plain : ∀ asked, ReflTransGen (Writes env roots (start config)) location asked →
      Plain env roots (start config) asked) :
    let result := ((start config).perform (add env location)).1
    ((∃ package, result = .error (.circularDependency package)) ↔
      ∃ package, OnCycle env roots (start config) location package) ∧
    ∀ package, result = .error (.circularDependency package) →
      OnCycle env roots (start config) location package := by
  intro result
  have ready : Ready env roots (start config) (start config) location := by
    refine ⟨tracks_start env roots config, ?_, ?_, ?_⟩
    · intro package checked known
      cases known
    · rintro package ⟨state, there, -⟩
      cases there
    · intro package there
      cases there
  have ends := Unbounded.request_ends env (start config) 0 location
  have added : (start config).perform (add env location) =
      (start config).perform
        (importRequested env (importDepth env (start config) + 0) location) := by
    rw [add, perform_get_bind, Nat.add_zero]
  rw [← added] at ends
  obtain ⟨named, found⟩ := circular_of_request search tidy
    (fun literal session outcome writes =>
      entered_importPackage search tidy thorough plain _ literal session outcome (.single writes))
    thorough (plain location .refl) ready ends
  refine ⟨⟨?_, ?_⟩, named⟩
  · rintro ⟨package, circular⟩
    exact ⟨package, named package circular⟩
  · rintro ⟨package, onCycle⟩
    exact found package onCycle

/-- A package stands in its own directory of a tree, and its one file imports what is listed. -/
structure Stands (tree : FileTree) (imports : List (String × String)) (path : String) : Prop where
  located : topRoots.locate tree (start {} : Session SourceTree).tags path =
    .ok (cyclicPackage path)
  written : ∀ name ∈ (cyclicPackage path).selection false,
    ((topSource tree).file? ((cyclicPackage path).dir.join name)).map (·.imports) =
      some ((imports.filter (·.1 == path)).map (·.2))

section

variable {tree : FileTree} {imports : List (String × String)}

theorem Stands.writes_iff (h : Stands tree imports path) :
    Writes (topSource tree) topRoots (start {}) path literal ↔ (path, literal) ∈ imports := by
  have there : (path, literal) ∈ imports ↔
      literal ∈ (imports.filter (·.1 == path)).map (·.2) := by
    simp
  rw [there]
  constructor
  · rintro ⟨located, found, name, chosen, file, read, names⟩
    cases found.symm.trans h.located
    have imports := h.written name chosen
    rw [read, Option.map_some] at imports
    exact Option.some.inj imports ▸ names
  · intro names
    obtain ⟨file, read, imports⟩ := Option.map_eq_some_iff.1 (h.written "p.go" List.mem_cons_self)
    exact ⟨_, h.located, "p.go", List.mem_cons_self, file, read, imports ▸ names⟩

theorem Stands.links (h : Stands tree imports path) (h' : Stands tree imports target)
    (edge : (path, target) ∈ imports) (apart : target ≠ path) :
    Links (topSource tree) topRoots (start {}) path target :=
  ⟨h.writes_iff.2 edge, apart, _, h'.located, List.cons_ne_nil _ _⟩

end

theorem stands_cyclicPackage (mem : path ∈ cyclicPaths) : Stands cyclicTree cyclicImports path :=
  ⟨locate_cyclicPackage path mem, written_cyclicPackage path mem⟩

theorem plain_cyclicPackage (mem : path ∈ cyclicPaths) :
    Plain cyclicSource topRoots (start {}) path where
  path located found := by
    have own : topRoots.locate cyclicTree (start {} : Session SourceTree).tags path =
        (cyclicPackage path).answer :=
      locate_cyclicPackage path mem
    rw [Roots.answer_injective (found.symm.trans own)]
    exact ⟨rfl, canonical_cyclicPaths path mem⟩
  accessible _ _ failed := by
    cases (locate_cyclicPackage path mem).symm.trans failed
  readable located found := by
    cases found.symm.trans (locate_cyclicPackage path mem)
    exact (loadable_cyclicPackage mem).readable
  ends located found := allEnd_cyclicTree located (Roots.leads_of_locate (.inl found))

theorem asked_cyclicPackage {asked : String} (mem : path ∈ cyclicPaths)
    (way : ReflTransGen (Writes cyclicSource topRoots (start {})) path asked) :
    asked ∈ cyclicPaths := by
  have known : ∀ edge ∈ cyclicImports, edge.2 ∈ cyclicPaths := by decide
  induction way with
  | refl => exact mem
  | tail _ writes ih => exact known _ ((stands_cyclicPackage ih).writes_iff.1 writes)

/-- A package two imports away from the cycle is not added. -/
theorem circular_iff_cyclicTree :
    (∀ asked, ReflTransGen (Writes cyclicSource topRoots (start {})) "x/r" asked →
      Plain cyclicSource topRoots (start {}) asked) ∧
    ∃ package, ((start {}).perform (add cyclicSource "x/r")).1 =
        .error (.circularDependency package) ∧
      OnCycle cyclicSource topRoots (start {}) "x/r" package := by
  have plain : ∀ asked, ReflTransGen (Writes cyclicSource topRoots (start {})) "x/r" asked →
      Plain cyclicSource topRoots (start {}) asked :=
    fun asked way => plain_cyclicPackage (asked_cyclicPackage (by decide) way)
  have link (path target : String) (edge : (path, target) ∈ cyclicImports) :
      Links cyclicSource topRoots (start {}) path target := by
    have known : ∀ edge ∈ cyclicImports,
        edge.1 ∈ cyclicPaths ∧ edge.2 ∈ cyclicPaths ∧ edge.2 ≠ edge.1 := by
      decide
    obtain ⟨mem, mem', apart⟩ := known _ edge
    exact (stands_cyclicPackage mem).links (stands_cyclicPackage mem') edge apart
  have way : ReflTransGen (Links cyclicSource topRoots (start {})) "x/r" "x/a" :=
    .tail (.single (link "x/r" "x/m" (by decide))) (link "x/m" "x/a" (by decide))
  have cycle : TransGen (Links cyclicSource topRoots (start {})) "x/a" "x/a" :=
    .tail (.single (link "x/a" "x/b" (by decide))) (link "x/b" "x/a" (by decide))
  obtain ⟨found, named⟩ :=
    circular_iff rfl wellFormed_cyclicTree Source.thorough_frontend {} "x/r" plain
  obtain ⟨package, circular⟩ := found.2 ⟨"x/a", way, cycle⟩
  exact ⟨plain, package, circular, named package circular⟩

/-- A package with an alias of itself, two that import each other, and one that imports the
first of each. -/
def endlessTree : FileTree :=
  (((({} : FileTree).put ⟨"/x/aa/p.go"⟩ (.text "package aa\n\ntype A = A\n")).put
    ⟨"/x/b/p.go"⟩ (.text "package b\n\nimport \"x/c\"\n")).put
    ⟨"/x/c/p.go"⟩ (.text "package c\n\nimport \"x/b\"\n")).put
    ⟨"/x/r/p.go"⟩ (.text "package r\n\nimport \"x/aa\"\nimport \"x/b\"\n")

def endlessImports : List (String × String) :=
  [("x/r", "x/aa"), ("x/r", "x/b"), ("x/b", "x/c"), ("x/c", "x/b")]

/-- The check of the alias comes before the cycle, and does not end. -/
theorem unending_before_cycle :
    OnCycle (topSource endlessTree) topRoots (start {}) "x/r" "x/b" ∧
      ((start {}).perform (add (topSource endlessTree) "x/r")).1 = .error .unending := by
  have located : ∀ path ∈ ["x/b", "x/c", "x/r"],
      topRoots.locate endlessTree (start {} : Session SourceTree).tags path =
        .ok (cyclicPackage path) := by
    decide +kernel
  have written : ∀ path ∈ ["x/b", "x/c", "x/r"], ∀ name ∈ (cyclicPackage path).selection false,
      ((topSource endlessTree).file? ((cyclicPackage path).dir.join name)).map (·.imports) =
        some ((endlessImports.filter (·.1 == path)).map (·.2)) := by
    decide +kernel
  have stands (path : String) (mem : path ∈ ["x/b", "x/c", "x/r"]) :
      Stands endlessTree endlessImports path :=
    ⟨located path mem, written path mem⟩
  have onward := (stands "x/b" (by decide)).links (stands "x/c" (by decide)) (by decide) (by decide)
  have back := (stands "x/c" (by decide)).links (stands "x/b" (by decide)) (by decide) (by decide)
  have way := (stands "x/r" (by decide)).links (stands "x/b" (by decide)) (by decide) (by decide)
  refine ⟨⟨.single way, .tail (.single onward) back⟩, ?_⟩
  decide +kernel

end GoAtlas.Session
