import GoAtlas.Proofs.Session.Housed
import GoAtlas.Proofs.Session.Ranked

/-!
# Imports end without a bound

Here imports are followed once more, as deep as they go. A package imports others while its
files come to be known, so nothing in the recursion gets smaller. It is cut off after a
number of calls, with nothing to show where it is, and it ends if some number is enough
(`Unbounded.Ends`).

It always ends, and with what the import with a bound gives (`import_ends`). What gets
smaller is the number of imports that are written somewhere and are not spent: an import
is spent once it is known to lead to a package whose check was started. Loading files
spends nothing, but takes nothing back either. A package whose imports are followed was
not started before, so the import that led to it is spent only now.
-/

namespace GoAtlas

variable {U : Type}

namespace Session

namespace Unbounded

/-- What a task makes of a session, unless it is cut off. -/
abbrev Course (U α : Type) : Type :=
  Session U → Option (Except Failure α × Session U)

/-- Imports the imports of a package, each as it is written, and gives the packages they
lead to. -/
def importAll (importOne : String → Course U (Option String)) (package : String) :
    List String → Table String → Course U (Table String)
  | [], found, session => some (.ok found, session)
  | literal :: rest, found, session =>
    if literal = package then importAll importOne package rest found session
    else
      (importOne literal session).bind fun
        | (.ok path, after) => importAll importOne package rest (noted found literal path) after
        | (.error failure, after) => some (.error failure, after)

variable (env : Environment U)

/-- Checks a loaded package, its imports first. -/
def check (importOne : String → Course U (Option String)) (package : String) : Course U Unit :=
  fun session =>
    match session.checks.get? package with
    | some (.done _) => some (.ok (), session)
    | some .inProgress => some (.error (.circularDependency package), session)
    | some (.incomplete _ message) | some (.failed message) =>
      some (.error (.typeCheck package message), session)
    | none =>
      if session.sources.hasPackage package then
        (importAll importOne package (session.sources.importsOf package) ∅
          (session.setCheck package .inProgress)).map fun
          | (.ok found, after) => after.perform (runCheck env package found)
          | (.error failure, after) =>
            (.error failure, after.setCheck package (.failed failure.message))
      else some (.error (.noFiles package), session)

/-- Imports the package at a location for another package, where `importOne` imports what
that one imports. -/
def enter (importOne : String → Course U (Option String)) (location : String) :
    Course U (Option String) :=
  fun session =>
    match session.perform (loaded env location) with
    | (.error failure, after) =>
      some (if failure.isRecoverable then (.ok none, after) else (.error failure, after))
    | (.ok package, after) =>
      (check env importOne package after).map fun
        | (.ok _, last) => (.ok (some package), last)
        | (.error failure, last) =>
          if failure.isRecoverable then (.ok (some package), last) else (.error failure, last)

/-- Imports the package at a location because it was asked for. -/
def request (importOne : String → Course U (Option String)) (location : String) :
    Course U Unit :=
  fun session =>
    match session.perform (loaded env location) with
    | (.error failure, after) => some (.error failure, after)
    | (.ok package, after) =>
      (check env importOne package after).map fun
        | (.ok _, last) => (.ok (), last.request package)
        | (.error failure, last) => (.error failure, last)

/-- Imports the package at a location for another package, cut off below so many calls. -/
def importPackage : Nat → String → Course U (Option String)
  | 0, _, _ => none
  | calls + 1, location, session => enter env (importPackage calls) location session

/-- Some number of calls is enough for the task, which ends with the outcome. -/
def Ends {α : Type} (course : Nat → Course U α) (session : Session U)
    (outcome : Except Failure α × Session U) : Prop :=
  ∃ calls, course calls session = some outcome

/-! ## More calls -/

section Monotone

variable {env} {importOne other : String → Course U (Option String)}
  (onward : ∀ location session outcome, importOne location session = some outcome →
    other location session = some outcome)
variable {outcome : Except Failure Unit × Session U} {session : Session U}
  {location package : String}

include onward

theorem importAll_mono {literals : List String} {found : Table String}
    {outcome : Except Failure (Table String) × Session U}
    (ends : importAll importOne package literals found session = some outcome) :
    importAll other package literals found session = some outcome := by
  induction literals generalizing found session with
  | nil => exact ends
  | cons literal rest ih =>
    rw [importAll] at ends ⊢
    split at ends
    · next self =>
      rw [if_pos self]
      exact ih ends
    · next apart =>
      rw [if_neg apart]
      obtain ⟨⟨result, after⟩, first, ends⟩ := Option.bind_eq_some_iff.1 ends
      rw [onward literal session _ first, Option.bind_some]
      cases result with
      | ok path => exact ih ends
      | error failure => exact ends

theorem check_mono (ends : check env importOne package session = some outcome) :
    check env other package session = some outcome := by
  unfold check at ends ⊢
  cases there : session.checks.get? package with
  | some state =>
    rw [there] at ends
    cases state <;> exact ends
  | none =>
    rw [there] at ends
    dsimp only at ends ⊢
    split at ends
    · next has =>
      rw [if_pos has]
      obtain ⟨inner, first, ends⟩ := Option.map_eq_some_iff.1 ends
      rw [importAll_mono onward first, Option.map_some]
      exact congrArg some ends
    · next without =>
      rw [if_neg without]
      exact ends

theorem map_check_mono {α : Type} {f : Except Failure Unit × Session U → α} {outcome : α}
    (ends : (check env importOne package session).map f = some outcome) :
    (check env other package session).map f = some outcome := by
  obtain ⟨inner, first, ends⟩ := Option.map_eq_some_iff.1 ends
  rw [check_mono onward first, Option.map_some]
  exact congrArg some ends

theorem enter_mono {outcome : Except Failure (Option String) × Session U}
    (ends : enter env importOne location session = some outcome) :
    enter env other location session = some outcome := by
  unfold enter at ends ⊢
  generalize session.perform (loaded env location) = outcome at ends
  obtain ⟨result, after⟩ := outcome
  cases result with
  | error failure => exact ends
  | ok package => exact map_check_mono onward ends

theorem request_mono (ends : request env importOne location session = some outcome) :
    request env other location session = some outcome := by
  unfold request at ends ⊢
  generalize session.perform (loaded env location) = outcome at ends
  obtain ⟨result, after⟩ := outcome
  cases result with
  | error failure => exact ends
  | ok package => exact map_check_mono onward ends

end Monotone

/-- More calls change nothing once an import ends. -/
theorem importPackage_mono {env : Environment U} {calls more : Nat} (le : calls ≤ more)
    (location : String) (session : Session U)
    (outcome : Except Failure (Option String) × Session U)
    (ends : importPackage env calls location session = some outcome) :
    importPackage env more location session = some outcome := by
  induction calls generalizing more location session outcome with
  | zero => cases ends
  | succ calls ih =>
    cases more with
    | zero => exact absurd le (Nat.not_succ_le_zero calls)
    | succ more => exact enter_mono (ih (Nat.le_of_succ_le_succ le)) ends

/-- What a task ends with, if more calls change nothing. -/
theorem ends_iff {α : Type} {course : Nat → Course U α} {session : Session U} {calls : Nat}
    {last outcome : Except Failure α × Session U}
    (mono : ∀ calls more outcome, calls ≤ more → course calls session = some outcome →
      course more session = some outcome)
    (ends : course calls session = some last) :
    Ends course session outcome ↔ outcome = last := by
  constructor
  · rintro ⟨calls', ends'⟩
    have first := mono calls (max calls calls') last (le_max_left ..) ends
    have second := mono calls' (max calls calls') outcome (le_max_right ..) ends'
    exact Option.some.inj (second.symm.trans first)
  · rintro rfl
    exact ⟨calls, ends⟩

/-! ## Imports with a bound -/

section Bounded

variable {env} {importOne : String → Course U (Option String)}
  {bounded : String → Task U (Option String)} {kept : Session U → Prop} {session : Session U}
  {package : String}

theorem importAll_eq {literals : List String} {found : Table String}
    (keeps : ∀ location, Keeps kept (bounded location))
    (one : ∀ literal ∈ literals, ∀ session, kept session →
      importOne literal session = some (session.perform (bounded literal)))
    (h : kept session) :
    importAll importOne package literals found session =
      some (session.perform (Session.importAll bounded package literals found)) := by
  induction literals generalizing session found with
  | nil => rfl
  | cons literal rest ih =>
    have others {found : Table String} {session : Session U} (h : kept session) :
        importAll importOne package rest found session =
          some (session.perform (Session.importAll bounded package rest found)) :=
      ih (fun other mem => one other (List.mem_cons_of_mem _ mem)) h
    rw [importAll]
    split
    · next self =>
      rw [Session.importAll, if_pos self]
      exact others h
    · next apart =>
      have after := keeps literal session h
      rw [one literal List.mem_cons_self session h, Option.bind_some,
        perform_importAll_cons apart]
      generalize session.perform (bounded literal) = outcome at after
      obtain ⟨result, left⟩ := outcome
      cases result with
      | ok path => exact others after
      | error failure => rfl

theorem check_eq (keeps : ∀ location, Keeps kept (bounded location))
    (one : ∀ literal ∈ session.sources.importsOf package, ∀ session, kept session →
      importOne literal session = some (session.perform (bounded literal)))
    (started : session.checks.get? package = none →
      kept (session.setCheck package .inProgress)) :
    check env importOne package session =
      some (session.perform (Session.check env bounded package)) := by
  rw [check, perform_check]
  cases there : session.checks.get? package with
  | some state => cases state <;> rfl
  | none =>
    dsimp only
    split
    · rw [importAll_eq keeps one (started there)]
      generalize (session.setCheck package .inProgress).perform
        (Session.importAll bounded package (session.sources.importsOf package) ∅) = outcome
      obtain ⟨result, after⟩ := outcome
      cases result <;> rfl
    · rfl

theorem enter_eq {depth : Nat} {location : String}
    (checks : ∀ package after, session.perform (loaded env location) = (.ok package, after) →
      check env importOne package after =
        some (after.perform (Session.check env (importAt env depth) package))) :
    enter env importOne location session =
      some (session.perform (importAt env (depth + 1) location)) := by
  rw [enter, perform_importAt_succ]
  cases loads : session.perform (loaded env location) with
  | mk result after =>
    cases result with
    | error failure => rfl
    | ok package =>
      dsimp only
      rw [checks package after loads]
      generalize after.perform (Session.check env (importAt env depth) package) = outcome
      obtain ⟨result, last⟩ := outcome
      cases result <;> rfl

end Bounded

end Unbounded

end Session

/-! ## The imports that are written -/

theorem FileTree.entry_of_mem_filesIn {tree : FileTree} {place : Place} {name : String}
    (mem : name ∈ tree.filesIn place) :
    ∃ entry, (place ++ [name], entry) ∈ tree.entries ∧ entry.isFile = true := by
  rw [(tree.filesIn_perm place).mem_iff, List.mem_filterMap] at mem
  obtain ⟨⟨other, entry⟩, stands, named⟩ := mem
  have eq : other = place ++ [name] := eq_append_of_fileNameIn? named
  refine ⟨entry, eq ▸ stands, ?_⟩
  unfold fileNameIn? at named
  split at named
  · split at named
    · assumption
    · cases named
  · cases named

theorem Roots.Describes.mem_filesIn {tree : FileTree} {tags : NameSet} {place : Place}
    {names : List String} {located : Located} (h : Describes tree tags place names located)
    {name : String} (listed : name ∈ located.files ++ located.testFiles) :
    name ∈ tree.filesIn place := by
  have chosen : name ∈ located.selection true := by rwa [Located.selection, if_pos rfl]
  exact (List.mem_filter.1
    ((selected_sublist h.selected).subset (h.mem_of_mem_selection chosen))).1

namespace Environment

variable {env : Environment U} {located : Located} {literal : String}

theorem imports_of_file? {path : FilePath} {file : SourceFile U}
    (found : env.file? path = some file) : file.imports = env.literalsAt path := by
  obtain ⟨content, read, there, parsed, rfl⟩ := read_of_file? found
  rw [literalsAt, there]
  dsimp only
  rw [parsed]

theorem mem_literalsOf {name : String} (listed : name ∈ located.files ++ located.testFiles)
    (mem : literal ∈ env.literalsAt (located.dir.join name)) : literal ∈ env.literalsOf located :=
  List.mem_flatMap.2 ⟨name, listed, mem⟩

/-- The imports of a package that can be located are written in the tree or the list. -/
theorem literalsOf_subset {tags : NameSet} {location : String}
    (found : env.Finds tags location located) : env.literalsOf located ⊆ env.literals := by
  intro literal mem
  unfold Finds at found
  unfold literals
  cases locator : env.locator with
  | search roots =>
    rw [locator] at found
    obtain ⟨place, names, described⟩ := (Roots.leads_of_locate found).describes
    obtain ⟨name, listed, mem⟩ := List.mem_flatMap.1 mem
    obtain ⟨entry, stands, file⟩ := FileTree.entry_of_mem_filesIn (described.mem_filesIn listed)
    refine List.mem_flatMap.2 ⟨_, List.mem_filter.2 ⟨stands, file⟩, ?_⟩
    dsimp only
    rw [List.dropLast_concat, List.getLast?_concat, Option.getD_some, ← described.dir]
    exact mem
  | listed packages =>
    rw [locator] at found
    refine List.mem_flatMap.2 ?_
    cases given : packages.get? location with
    | none =>
      rw [Locator.locate, given] at found
      rcases found with found | found <;> cases found
    | some answer =>
      rw [Locator.locate, given, Option.getD_some] at found
      refine ⟨answer, (Table.mem_values_iff packages answer).2 ⟨location, given⟩, ?_⟩
      rcases found with rfl | rfl <;> exact mem

end Environment

theorem SourceIndex.imports_of_insert {index : SourceIndex U} {package other literal : String}
    {file : SourceFile U} (mem : literal ∈ (index.insert package file).importsOf other) :
    literal ∈ index.importsOf other ∨ literal ∈ file.imports := by
  cases fresh : index.containsFile package file.path with
  | true =>
    rw [SourceIndex.insert, if_pos fresh] at mem
    exact .inl mem
  | false => exact ((mem_importsOf_insert fresh other literal).1 mem).imp_right And.right

namespace Session

variable {env : Environment U} {session between after : Session U} {location package : String}
  {located : Located} {literals : List String}
variable {literal : String}

/-- All imports that may come up are among the literals. -/
structure Covers (env : Environment U) (literals : List String) (session : Session U) : Prop where
  located : ∀ location located, session.located.get? location = some located →
    env.literalsOf located ⊆ literals
  imports : ∀ package, session.sources.importsOf package ⊆ literals

theorem covers_literals (env : Environment U) (session : Session U) :
    Covers env (Session.literals env session) session where
  located location located there literal mem := by
    have value := (Table.mem_values_iff session.located located).2 ⟨location, there⟩
    exact List.mem_append_left _
      (List.mem_append_right _ (List.mem_flatMap.2 ⟨located, value, mem⟩))
  imports package literal mem := by
    unfold SourceIndex.importsOf at mem
    cases there : session.sources.imports.get? package with
    | none =>
      rw [there] at mem
      cases mem
    | some names =>
      rw [there] at mem
      have value := (Table.mem_values_iff session.sources.imports names).2 ⟨package, there⟩
      exact List.mem_append_right _ (List.mem_flatMap.2 ⟨names, value, mem⟩)

section Covers

variable (whole : env.literals ⊆ literals)

include whole

theorem Covers.locates (h : Covers env literals session)
    (locates : Locates env session location located after) : Covers env literals after := by
  have here : env.literalsOf located ⊆ literals := by
    cases locates with
    | before there => exact h.located location located there
    | now new found => exact List.Subset.trans (Environment.literalsOf_subset found) whole
  refine ⟨fun other old there => ?_, ?_⟩
  · rcases locates.known there with before | rfl
    · exact h.located other old before
    · exact here
  · obtain ⟨entries, rfl⟩ := locates.frame
    exact h.imports

theorem Covers.loadsTo (h : Covers env literals session)
    (loads : LoadsTo env session location after) : Covers env literals after := by
  cases loads with
  | nothing => exact h
  | refused locates elsewhere => exact h.locates whole locates
  | @read located between held locates holdsTo =>
    have covers := h.locates whole locates
    have covers' : Covers env literals held := by
      obtain ⟨directories, rfl⟩ := holdsTo.frame
      exact ⟨covers.located, covers.imports⟩
    refine keeps_parseFiles (fun session path h => ⟨h.located, h.imports⟩) ?_ held covers'
    intro session name mem file h found fresh
    refine ⟨h.located, fun other literal written => ?_⟩
    rcases SourceIndex.imports_of_insert written with old | new
    · exact h.imports other old
    · rw [Environment.imports_of_file? found] at new
      exact covers.located location located locates.there
        (Environment.mem_literalsOf (Located.mem_of_mem_selection mem) new)

theorem outlasts_covers : Outlasts env (Covers env literals) where
  loaded location session h := h.loadsTo whole (loadsTo_loaded session location)
  undecided _ _ _ h _ := ⟨h.located, h.imports⟩
  conclude _ _ _ _ h := ⟨h.located, h.imports⟩
  request _ _ h := ⟨h.located, h.imports⟩
  addTags _ _ h := ⟨h.located, h.imports⟩

end Covers

/-! ## Spent imports -/

/-- The import leads to a package whose check was started. -/
def isSpent (session : Session U) (literal : String) : Bool :=
  (session.knownPackage? literal).any session.checks.contains

theorem isSpent_iff : session.isSpent literal = true ↔
    ∃ package, session.knownPackage? literal = some package ∧
      session.checks.contains package = true := by
  rw [isSpent, Option.any_eq_true]

/-- Reading files changes nothing of what was located and where. -/
theorem perform_parseFiles_frame (session : Session U) (package : String) (dir : FilePath)
    (names : List String) :
    (session.perform (parseFiles env package dir names)).2.located = session.located ∧
      (session.perform (parseFiles env package dir names)).2.directories = session.directories :=
  @keeps_parseFiles U env package
    (fun after => after.located = session.located ∧ after.directories = session.directories)
    dir names (fun _ _ h => h) (fun _ _ _ _ h _ _ => h) session ⟨rfl, rfl⟩

theorem LoadsTo.kept (loads : LoadsTo env session location after) {other : String}
    (there : session.located.get? other = some located) :
    after.located.get? other = some located := by
  cases loads with
  | nothing => exact there
  | refused locates elsewhere => exact locates.kept there
  | @read _ between held locates holdsTo =>
    have same : held.located = between.located := by cases holdsTo <;> rfl
    rw [(perform_parseFiles_frame held _ _ _).1, same]
    exact locates.kept there

/-- What loading makes of a session where it succeeds. -/
theorem load_ok (ok : session.perform (load env location) = (.ok package, after)) :
    ∃ located between held, Locates env session location located between ∧
      HoldsTo between located held ∧ located.package = package ∧
      held.perform (parseFiles env package located.dir
        (located.selection held.config.includeTestFiles)) = (.ok (), after) := by
  rw [load, perform_bind] at ok
  rcases perform_locate env session location with
    ⟨failure, missing, -⟩ | ⟨located, between, found, locates⟩
  · rw [missing] at ok
    cases ok
  rw [found] at ok
  dsimp only at ok
  rw [perform_bind] at ok
  rcases holdsTo_settle between located with ⟨failure, differs, -⟩ | ⟨held, same, holdsTo⟩
  · rw [differs] at ok
    cases ok
  rw [same] at ok
  dsimp only at ok
  rw [perform_get_bind] at ok
  rw [← Located.selection] at ok
  split at ok
  · cases ok
  · rw [perform_bind] at ok
    cases read : held.perform (parseFiles env located.package
        located.dir (located.selection held.config.includeTestFiles)) with
    | mk result last =>
      rw [read] at ok
      cases result with
      | error failure => cases ok
      | ok value =>
        cases ok
        exact ⟨located, between, held, locates, holdsTo, rfl, read⟩

/-- The package that is loaded from a location is the one that the location is known for
from then on. -/
theorem known_of_load (ok : session.perform (load env location) = (.ok package, after)) :
    after.knownPackage? location = some package := by
  obtain ⟨located, between, held, locates, holdsTo, canonical, read⟩ := load_ok ok
  have entries := (@perform_parseFiles_frame U env held package located.dir
    (located.selection held.config.includeTestFiles)).1
  rw [read] at entries
  have same : held.located = between.located := by cases holdsTo <;> rfl
  have there : after.located.get? location = some located := by
    rw [entries, same]
    exact locates.there
  rw [knownPackage?_eq there, canonical]

theorem known_of_loaded (ok : session.perform (loaded env location) = (.ok package, after)) :
    after.knownPackage? location = some package := by
  obtain same | ⟨located, there, -, same⟩ := perform_loaded env session location
  · exact known_of_load (same ▸ ok)
  · cases same.symm.trans ok
    exact knownPackage?_eq there

theorem isSpent_setCheck (spent : session.isSpent literal = true) (package : String)
    (state : CheckState) : (session.setCheck package state).isSpent literal = true := by
  obtain ⟨target, known, started⟩ := isSpent_iff.1 spent
  refine isSpent_iff.2 ⟨target, known, ?_⟩
  obtain ⟨old, there⟩ := (Table.contains_iff _ _).1 started
  refine (Table.contains_iff _ _).2 ?_
  rw [setCheck, Table.get?_insert]
  split
  · exact ⟨state, rfl⟩
  · exact ⟨old, there⟩

/-- No request takes back that an import is spent. -/
theorem outlasts_isSpent (env : Environment U) (literal : String) :
    Outlasts env fun session => session.isSpent literal = true where
  loaded location session spent := by
    obtain ⟨target, known, started⟩ := isSpent_iff.1 spent
    obtain ⟨located, there, canonical⟩ := Option.map_eq_some_iff.1 known
    refine isSpent_iff.2 ⟨target, ?_, (learns_loaded session location).checks ▸ started⟩
    rw [knownPackage?_eq ((loadsTo_loaded session location).kept there), canonical]
  undecided _ package state spent _ := isSpent_setCheck spent package state
  conclude _ package _ _ spent := isSpent_setCheck spent package _
  request _ _ spent := spent
  addTags _ _ spent := spent

/-- The number of imports that are not spent. -/
def unspent (literals : List String) (session : Session U) : Nat :=
  literals.countP fun literal => !session.isSpent literal

theorem unspent_le (kept : ∀ literal, session.isSpent literal = true →
    after.isSpent literal = true) : after.unspent literals ≤ session.unspent literals := by
  refine List.countP_mono_left fun literal _ new => ?_
  rw [Bool.not_eq_true'] at new ⊢
  exact eq_false_of_ne_true fun there => Bool.false_ne_true (new.symm.trans (kept literal there))

/-- An import is spent by the check that it leads to. -/
theorem unspent_setCheck_lt (mem : location ∈ literals)
    (known : session.knownPackage? location = some package)
    (new : session.checks.get? package = none) (state : CheckState) :
    (session.setCheck package state).unspent literals < session.unspent literals := by
  have before : session.isSpent location = false := by
    rw [isSpent, known, Option.any_some, Table.contains, new, Option.isSome_none]
  have now : (session.setCheck package state).isSpent location = true :=
    isSpent_iff.2 ⟨package, known,
      (Table.contains_iff _ _).2 ⟨state, Table.get?_insert_self ..⟩⟩
  have others (literals : List String) :
      (session.setCheck package state).unspent literals ≤ session.unspent literals :=
    unspent_le fun _ spent => isSpent_setCheck spent package state
  obtain ⟨front, back, split⟩ := List.append_of_mem mem
  have front' := others front
  have back' := others back
  simp only [unspent, split, List.countP_append, List.countP_cons, before, now, Bool.not_true,
    Bool.not_false, Bool.false_eq_true, if_true, if_false] at front' back' ⊢
  omega

theorem outlasts_unspent (env : Environment U) (literals : List String) (bound : Nat) :
    Outlasts env fun session => session.unspent literals < bound where
  loaded location session h :=
    (unspent_le fun literal => (outlasts_isSpent env literal).loaded location session).trans_lt h
  undecided _ package state h _ :=
    (unspent_le fun _ spent => isSpent_setCheck spent package state).trans_lt h
  conclude _ package _ _ h :=
    (unspent_le fun _ spent => isSpent_setCheck spent package _).trans_lt h
  request _ _ h := h
  addTags _ _ h := h

/-! ## The bound suffices -/

namespace Unbounded

/-- A check ends where the imports below it do. -/
theorem check_importPackage_eq (whole : env.literals ⊆ literals) {depth : Nat}
    (one : ∀ literal session, literal ∈ literals → Covers env literals session →
      session.unspent literals < depth →
        importPackage env depth literal session =
          some (session.perform (importAt env depth literal)))
    (covers : Covers env literals session)
    (room : session.checks.get? package = none →
      (session.setCheck package .inProgress).unspent literals < depth) :
    check env (importPackage env depth) package session =
      some (session.perform (Session.check env (importAt env depth) package)) := by
  refine @check_eq U env _ _
    (fun session => Covers env literals session ∧ session.unspent literals < depth) session package
    (fun location session h => ?_) (fun literal written other h => ?_) fun new => ?_
  · exact ⟨(outlasts_covers whole).keeps_importAt depth location session h.1,
      (outlasts_unspent env literals depth).keeps_importAt depth location session h.2⟩
  · exact one literal other (covers.imports package written) h.1 h.2
  · exact ⟨⟨covers.located, covers.imports⟩, room new⟩

/-- An import that is written somewhere ends within as many steps as there are imports to
spend. -/
theorem importPackage_eq (whole : env.literals ⊆ literals) (depth : Nat) (location : String)
    (session : Session U) (mem : location ∈ literals) (covers : Covers env literals session)
    (room : session.unspent literals < depth) :
    importPackage env depth location session =
      some (session.perform (importAt env depth location)) := by
  induction depth generalizing location session with
  | zero => exact absurd room (Nat.not_lt_zero _)
  | succ depth ih =>
    have covers' := (outlasts_covers whole).loaded location session covers
    have room' := (outlasts_unspent env literals (depth + 1)).loaded location session room
    refine enter_eq fun package after loads => ?_
    rw [loads] at covers' room'
    -- below the package one import less is left to spend
    exact check_importPackage_eq whole ih covers' fun new =>
      (unspent_setCheck_lt mem (known_of_loaded loads) new .inProgress).trans_le
        (Nat.le_of_lt_succ room')

theorem literals_subset (env : Environment U) (session : Session U) :
    env.literals ⊆ Session.literals env session :=
  fun _ mem => List.mem_append_left _ (List.mem_append_left _ mem)

/-- The check of a package ends within the bound of the session, as it was before or after
loading, and within any higher one. -/
theorem check_ends {base : Session U} (covers : Covers env (Session.literals env base) session)
    (more : Nat) (package : String) :
    check env (importPackage env (importDepth env base + more)) package session =
      some (session.perform
        (Session.check env (importAt env (importDepth env base + more)) package)) := by
  have room (other : Session U) :
      other.unspent (Session.literals env base) < importDepth env base + more :=
    Nat.lt_add_right more (Nat.lt_succ_of_le List.countP_le_length)
  have whole := literals_subset env base
  exact check_importPackage_eq whole (importPackage_eq whole _) covers fun _ => room _

/-- A package that was asked for is imported within the bound. -/
theorem request_ends (env : Environment U) (session : Session U) (more : Nat)
    (location : String) :
    request env (importPackage env (importDepth env session + more)) location session =
      some (session.perform
        (importRequested env (importDepth env session + more) location)) := by
  have covers := (outlasts_covers (literals_subset env session)).loaded location session
    (covers_literals env session)
  rw [request, importRequested, perform_bind]
  generalize session.perform (loaded env location) = outcome at covers
  obtain ⟨result, after⟩ := outcome
  cases result with
  | error failure => rfl
  | ok package =>
    dsimp only
    rw [check_ends covers more, perform_bind]
    generalize after.perform (Session.check env (importAt env (importDepth env session + more))
      package) = outcome
    obtain ⟨result, last⟩ := outcome
    cases result <;> rfl

/-- So is a package that another one imports, which takes one step more. -/
theorem importPackage_ends (env : Environment U) (session : Session U) (more : Nat)
    (location : String) :
    importPackage env (importDepth env session + more + 1) location session =
      some (session.perform (importAt env (importDepth env session + more + 1) location)) := by
  have covers := (outlasts_covers (literals_subset env session)).loaded location session
    (covers_literals env session)
  refine enter_eq fun package after loads => ?_
  rw [loads] at covers
  exact check_ends covers more package

end Unbounded

/-- Importing a package and checking one always end, whatever the session knows, the front
end answers and the packages import. They end with what they give within the bound, or
within any higher one. -/
theorem import_ends (env : Environment U) (session : Session U) (more : Nat) :
    let depth := importDepth env session + more
    (∀ location outcome,
      Unbounded.Ends (fun calls => Unbounded.importPackage env calls location) session outcome ↔
        outcome = session.perform (importAt env (depth + 1) location)) ∧
    (∀ location outcome,
      Unbounded.Ends (fun calls => Unbounded.request env (Unbounded.importPackage env calls)
          location) session outcome ↔
        outcome = session.perform (importRequested env depth location)) ∧
    ∀ package outcome,
      Unbounded.Ends (fun calls => Unbounded.check env (Unbounded.importPackage env calls)
          package) session outcome ↔
        outcome = session.perform (check env (importAt env depth) package) := by
  refine ⟨fun location outcome => ?_, fun location outcome => ?_, fun package outcome => ?_⟩
  · exact Unbounded.ends_iff (fun _ _ _ le => Unbounded.importPackage_mono le location session _)
      (Unbounded.importPackage_ends env session more location)
  · exact Unbounded.ends_iff
      (fun _ _ _ le => Unbounded.request_mono (Unbounded.importPackage_mono le))
      (Unbounded.request_ends env session more location)
  · exact Unbounded.ends_iff
      (fun _ _ _ le => Unbounded.check_mono (Unbounded.importPackage_mono le))
      (Unbounded.check_ends (covers_literals env session) more package)

end Session

end GoAtlas
