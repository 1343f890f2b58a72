import GoAtlas.Proofs.Session.Reading
import GoAtlas.Session.Survey

/-!
# The checks of a session

A check is over when it has a result. `Settles` says what any part of a run does to
the checks: those that are there stay, also those in progress, and those that are
new are over. `Accounted` ties the checks to the calls of the checker: each package
was handed to it at most once, and one that was has its result. Together they hold
after every request, whatever came of it (`checks_after_requests`).

A package is in progress only between the start of its check and the end of it. What
happens in between is said once, in `perform_check` and `perform_runCheck`.
-/

namespace GoAtlas

/-- The check has a result. -/
def CheckState.isOver : CheckState → Bool
  | .inProgress => false
  | .done _ | .incomplete _ _ | .failed _ => true

/-- The result that an answer of the checker is kept as. -/
def CheckState.ofAnswer : Except CheckFault Checked → CheckState
  | .ok checked => .done checked
  | .error (.errors message (some checked)) => .incomplete checked message
  | .error (.errors message none) => .failed message
  | .error (.unknownPackage _) => .failed "unknown to the type checker"
  | .error .unending => .failed ""

theorem CheckState.isOver_ofAnswer (answer : Except CheckFault Checked) :
    (ofAnswer answer).isOver = true := by
  unfold ofAnswer
  split <;> rfl

/-- The package that a call hands to the checker. -/
def Call.checked? : Call → Option String
  | .parse _ => none
  | .check package _ _ => some package

variable {U : Type}

theorem SourceIndex.hasPackage_insert {index : SourceIndex U} {package : String}
    (has : index.hasPackage package = true) (other : String) (file : SourceFile U) :
    (index.insert other file).hasPackage package = true := by
  cases fresh : index.containsFile other file.path with
  | true => simpa [SourceIndex.insert, fresh] using has
  | false =>
    rw [hasPackage, files_insert fresh, Table.contains, Table.get?_insert]
    split
    · rfl
    · exact has

namespace Session

variable {env : Environment U} {base before session after : Session U} {package : String}

/-- The packages that were handed to the checker, in order. -/
def checkOrder (session : Session U) : List String :=
  session.calls.filterMap Call.checked?

theorem checkOrder_record_parse (session : Session U) (path : FilePath) :
    (session.record (.parse path)).checkOrder = session.checkOrder := by
  simp [checkOrder, record, Call.checked?]

theorem checkOrder_check (session : Session U) (package : String) (files : List FilePath)
    (imports : List (String × Option String)) (state : CheckState) :
    ((session.record (.check package files imports)).setCheck package state).checkOrder =
      session.checkOrder ++ [package] := by
  simp [checkOrder, record, setCheck, Call.checked?]

theorem checked?_setCheck (session : Session U) (package : String) (state : CheckState)
    (other : String) : (session.setCheck package state).checked? other =
      if other = package then state.checked? else session.checked? other := by
  rw [checked?, setCheck, Table.get?_insert]
  split <;> rfl

/-! ## Loading -/

/-- Reading keeps what every new file of the directory keeps. -/
theorem keeps_parseFiles {kept : Session U → Prop} {dir : FilePath} {names : List String}
    (record : ∀ session path, kept session → kept (session.record (.parse path)))
    (addFile : ∀ session, ∀ name ∈ names, ∀ file, kept session →
      env.file? (dir.join name) = some file →
      session.sources.containsFile package file.path = false →
      kept (session.addFile package file)) :
    Keeps kept (parseFiles env package dir names) := by
  induction names with
  | nil => exact keeps_pure ()
  | cons name rest ih =>
    have later := ih fun session other mem => addFile session other (List.mem_cons_of_mem name mem)
    intro session h
    rw [perform_parseFiles_cons]
    cases read : env.tree.read (dir.join name) with
    | error fault => exact h
    | ok content =>
      dsimp only
      rw [perform_parseFile]
      by_cases there : session.sources.containsFile package (dir.join name) = true
      · rw [if_pos there]
        exact later session h
      · rw [if_neg there]
        have recorded := record session (dir.join name) h
        cases parsed : env.frontend.parse (dir.join name) content with
        | error message => exact recorded
        | ok file =>
          refine later _ (addFile _ name List.mem_cons_self _ recorded ?_ ?_)
          · rw [Environment.file?, read]
            dsimp only
            rw [parsed]
          · exact eq_false_of_ne_true there

/-- The property outlasts whatever loading makes of a session. -/
structure Steady (env : Environment U) (kept : Session U → Prop) : Prop where
  remember : ∀ session location located, kept session →
    (env.locator.locate env.tree session.tags location = .ok located ∨
      env.locator.locate env.tree session.tags location = .error (.noSource located)) →
    kept (session.remember location located)
  settle : ∀ session package dir, kept session → session.directories.get? package = none →
    kept { session with directories := session.directories.insert package dir }
  record : ∀ session path, kept session → kept (session.record (.parse path))
  addFile : ∀ session package file, kept session → env.file? file.path = some file →
    kept (session.addFile package file)

namespace Steady

variable {kept : Session U → Prop} (steady : Steady env kept)

include steady in
theorem keeps_locate (location : String) : Keeps kept (locate env location) := by
  refine keeps_get_bind fun session h => ?_
  split
  · exact h
  · split
    · next found => exact steady.remember session location _ h (.inl found)
    · next found => exact steady.remember session location _ h (.inr found)
    · exact h
    · exact h

include steady in
theorem keeps_settle (package : String) (dir : FilePath) :
    Keeps kept (Session.settle package dir) := by
  refine keeps_get_bind fun session h => ?_
  split
  · split <;> exact h
  · next new => exact steady.settle session package dir h new

include steady in
theorem keeps_parseFiles (package : String) (dir : FilePath) (names : List String) :
    Keeps kept (parseFiles env package dir names) := by
  refine Session.keeps_parseFiles steady.record fun session name _ file h found _ => ?_
  exact steady.addFile session package file h (Environment.path_of_file? found ▸ found)

include steady in
/-- The rest of loading a package, once it is located and held to its directory. -/
theorem keeps_loadFiles (location package : String) (located : Located) :
    Keeps kept (do
      let session : Session U ← get
      let files :=
        located.files ++ if session.config.includeTestFiles then located.testFiles else []
      if files.isEmpty then throw (.noSource location)
      parseFiles env package located.dir files
      return package) := by
  refine keeps_get_bind fun session h => ?_
  dsimp only
  generalize (located.files ++ if session.config.includeTestFiles then located.testFiles else [])
    = files
  split
  · exact h
  · exact (steady.keeps_parseFiles _ _ files).bind (fun _ => keeps_pure _) session h

include steady in
theorem keeps_load (location : String) : Keeps kept (load env location) :=
  (steady.keeps_locate location).bind fun located =>
    (steady.keeps_settle _ _).bind fun _ => steady.keeps_loadFiles location _ located

include steady in
theorem keeps_loaded (location : String) : Keeps kept (loaded env location) := by
  refine keeps_get_bind fun session h => ?_
  split
  · split
    · exact h
    · exact steady.keeps_load location session h
  · exact steady.keeps_load location session h

end Steady

/-- The session learned of packages and files, and nothing was checked. -/
structure Learns (before after : Session U) : Prop where
  checks : after.checks = before.checks
  requested : after.requested = before.requested
  order : after.checkOrder = before.checkOrder
  files : ∀ package, before.sources.hasPackage package = true →
    after.sources.hasPackage package = true
  dense : before.sources.Dense → after.sources.Dense

theorem Learns.refl (session : Session U) : Learns session session :=
  ⟨rfl, rfl, rfl, fun _ => id, id⟩

theorem Learns.trans (h : Learns base before) (h' : Learns before after) : Learns base after where
  checks := h'.checks.trans h.checks
  requested := h'.requested.trans h.requested
  order := h'.order.trans h.order
  files package has := h'.files package (h.files package has)
  dense dense := h'.dense (h.dense dense)

theorem steady_learns (base : Session U) : Steady env (Learns base) where
  remember _ _ _ h _ := h.trans ⟨rfl, rfl, rfl, fun _ => id, id⟩
  settle _ _ _ h _ := h.trans ⟨rfl, rfl, rfl, fun _ => id, id⟩
  record session path h := h.trans ⟨rfl, rfl, checkOrder_record_parse .., fun _ => id, id⟩
  addFile session package file h _ := by
    refine h.trans ⟨rfl, rfl, rfl, fun _ has => ?_, fun dense => ?_⟩
    · exact SourceIndex.hasPackage_insert has package file
    · exact dense.insert package file

theorem learns_loaded (session : Session U) (location : String) :
    Learns session (session.perform (loaded env location)).2 :=
  (steady_learns session).keeps_loaded location session (.refl session)

/-! ## Checking -/

/-- What the checker is handed for an import: what is known of the package it
leads to. -/
def imported? (session : Session U) (found : Table String) (literal : String) : Option Checked :=
  (found.get? literal).bind session.checked?

/-- The imports that the checker is handed with a package, as the call records them. -/
def handedImports (session : Session U) (package : String) (found : Table String) :
    List (String × Option String) :=
  (NameSet.toList (NameSet.ofNames
    ((session.sources.filesOf package).flatMap fun file => file.imports))).map
      fun literal => (literal, (session.imported? found literal).map fun checked => checked.path)

/-- What a check of a package makes of the session: a call with the files of the package,
and a result. It succeeds where the checker does, and fails recoverably where the checker
comes to an end. -/
theorem perform_runCheck (session : Session U) (package : String) (found : Table String) :
    let answer := env.frontend.check package (session.sources.filesOf package)
      (session.imported? found)
    (session.perform (runCheck env package found)).2 =
      (session.record (.check package ((session.sources.filesOf package).map fun file => file.path)
        (session.handedImports package found))).setCheck package (.ofAnswer answer) ∧
    ((session.perform (runCheck env package found)).1 = .ok () → ∃ checked, answer = .ok checked) ∧
    ∀ failure, (session.perform (runCheck env package found)).1 = .error failure →
      (failure = .unending ∧ answer = .error .unending) ∨
      failure.isRecoverable = true ∧ ((∃ message, failure = .typeCheck package message) ∨
        ∃ path, answer = .error (.unknownPackage path)) := by
  intro answer
  rw [runCheck, perform_get_bind]
  dsimp only
  have asked : env.frontend.check package (session.sources.filesOf package)
      (fun literal => (found.get? literal).bind session.checked?) = answer := rfl
  rw [asked]
  cases answer with
  | ok checked =>
    refine ⟨rfl, fun _ => ⟨checked, rfl⟩, ?_⟩
    rintro failure ⟨⟩
  | error fault =>
    -- a failure that is reported is one of those that are passed over
    cases fault with
    | unending =>
      refine ⟨rfl, ?_, ?_⟩
      · rintro ⟨⟩
      · rintro failure ⟨⟩
        exact .inl ⟨rfl, rfl⟩
    | unknownPackage path =>
      refine ⟨rfl, ?_, ?_⟩
      · rintro ⟨⟩
      · rintro failure ⟨⟩
        exact .inr ⟨rfl, .inr ⟨path, rfl⟩⟩
    | errors message resolved =>
      refine ⟨?_, ?_, ?_⟩
      · cases resolved <;> rfl
      · cases resolved <;> rintro ⟨⟩
      · cases resolved <;>
        · rintro failure ⟨⟩
          exact .inr ⟨rfl, .inl ⟨message, rfl⟩⟩

/-- A check that does not end keeps the session from going on. -/
theorem runCheck_unending {package : String} {found : Table String}
    (unending : env.frontend.check package (session.sources.filesOf package)
      (session.imported? found) = .error .unending) :
    (session.perform (runCheck env package found)).1 = .error .unending := by
  have asked : env.frontend.check package (session.sources.filesOf package)
      (fun literal => (found.get? literal).bind session.checked?) = .error .unending := unending
  rw [runCheck, perform_get_bind]
  dsimp only
  rw [asked]
  rfl

variable {importOne : String → Task U (Option String)}

/-- What the check of a package comes to: its result is there already, or it is made,
with the package in progress while its imports are imported. -/
theorem perform_check (session : Session U) (package : String) :
    session.perform (check env importOne package) =
      match session.checks.get? package with
      | some (.done _) => (.ok (), session)
      | some .inProgress => (.error (.circularDependency package), session)
      | some (.incomplete _ message) | some (.failed message) =>
        (.error (.typeCheck package message), session)
      | none =>
        if session.sources.hasPackage package then
          match (session.setCheck package .inProgress).perform
            (importAll importOne package (session.sources.importsOf package) ∅) with
          | (.ok found, after) => after.perform (runCheck env package found)
          | (.error failure, after) =>
            (.error failure, after.setCheck package (.failed failure.message))
        else (.error (.noFiles package), session) := by
  rw [check, perform_get_bind]
  cases session.checks.get? package with
  | some state => cases state <;> rfl
  | none =>
    dsimp only
    split
    · rw [perform_bind, perform_set]
      dsimp only
      rw [perform_bind, perform_tryCatch]
      generalize (session.setCheck package .inProgress).perform _ = outcome
      obtain ⟨result, after⟩ := outcome
      cases result <;> rfl
    · rfl

/-! ## The invariant -/

/-- The check of the package has a result. -/
def Concluded (session : Session U) (package : String) : Prop :=
  ∃ state, session.checks.get? package = some state ∧ state.isOver = true

theorem not_concluded_of_none (new : session.checks.get? package = none) :
    ¬ session.Concluded package := by
  rintro ⟨state, there, -⟩
  cases new.symm.trans there

theorem not_concluded_of_inProgress (during : session.checks.get? package = some .inProgress) :
    ¬ session.Concluded package := by
  rintro ⟨state, there, ended⟩
  cases during.symm.trans there
  cases ended

/-- The checks that are there stay, and those that are new are over. -/
structure Settles (before after : Session U) : Prop where
  states : ∀ package state, before.checks.get? package = some state →
    after.checks.get? package = some state
  ended : ∀ package state, after.checks.get? package = some state →
    before.checks.get? package = some state ∨ state.isOver = true

theorem Settles.refl (session : Session U) : Settles session session :=
  ⟨fun _ _ => id, fun _ _ => .inl⟩

theorem Settles.record (h : Settles before after) (call : Call) :
    Settles before (after.record call) :=
  ⟨h.states, h.ended⟩

theorem Settles.trans (h : Settles base before) (h' : Settles before after) :
    Settles base after where
  states package state there := h'.states package state (h.states package state there)
  ended package state there := by
    rcases h'.ended package state there with there | ended
    · exact h.ended package state there
    · exact .inr ended

/-- Loading adds no results. -/
theorem Learns.settles (h : Learns before after) : Settles before after := by
  refine ⟨fun package state => ?_, fun package state => ?_⟩
  · rw [h.checks]
    exact id
  · rw [h.checks]
    exact .inl

/-- The checks are accounted for by the calls of the checker and by the files. -/
structure Accounted (session : Session U) : Prop where
  dense : session.sources.Dense
  /-- No package was handed to the checker twice. -/
  once : session.checkOrder.Nodup
  /-- A package that was handed to the checker has its result. -/
  ended : ∀ package ∈ session.checkOrder,
    ∃ state, session.checks.get? package = some state ∧ state.isOver = true
  files : ∀ package state, session.checks.get? package = some state →
    session.sources.hasPackage package = true
  requested : ∀ package, session.requested.contains package = true →
    ∃ checked, session.checks.get? package = some (.done checked)

theorem accounted_start (config : Config) : Accounted (start config : Session U) where
  dense := SourceIndex.dense_empty
  once := List.nodup_nil
  ended _ mem := nomatch mem
  files _ _ there := nomatch there
  requested _ mem := nomatch mem

namespace Accounted

variable {imports' imports : List (String × Option String)} {paths' paths : List FilePath}

theorem learns (h : before.Accounted) (learns : Learns before after) : after.Accounted where
  dense := learns.dense h.dense
  once := learns.order ▸ h.once
  ended package mem := by
    rw [learns.order] at mem
    rw [learns.checks]
    exact h.ended package mem
  files package state there := by
    rw [learns.checks] at there
    exact learns.files package (h.files package state there)
  requested package mem := by
    rw [learns.requested] at mem
    rw [learns.checks]
    exact h.requested package mem

section

variable (h : session.Accounted)

include h

/-- A package whose check is not over may be given a state, whether or not it is
handed to the checker on the way to a result. -/
theorem setCheck (has : session.sources.hasPackage package = true)
    (unchecked : ¬ session.Concluded package) (state : CheckState) :
    (session.setCheck package state).Accounted where
  dense := h.dense
  once := h.once
  ended other mem := by
    obtain ⟨old, there, ended⟩ := h.ended other mem
    refine ⟨old, ?_, ended⟩
    rw [Session.setCheck, Table.get?_insert_of_ne]
    · exact there
    · rintro rfl
      exact unchecked (h.ended _ mem)
  files other old there := by
    rw [Session.setCheck, Table.get?_insert] at there
    split at there
    · next same => exact same ▸ has
    · exact h.files other old there
  requested other mem := by
    obtain ⟨checked, there⟩ := h.requested other mem
    refine ⟨checked, ?_⟩
    rw [Session.setCheck, Table.get?_insert_of_ne]
    · exact there
    · rintro rfl
      exact unchecked ⟨_, there, rfl⟩

theorem check (has : session.sources.hasPackage package = true)
    (unchecked : ¬ session.Concluded package) {state : CheckState} (ended : state.isOver = true)
    (files : List FilePath) (imports : List (String × Option String)) :
    ((session.record (.check package files imports)).setCheck package state).Accounted := by
  have set := h.setCheck has unchecked state
  refine ⟨set.dense, ?_, fun other mem => ?_, set.files, set.requested⟩
  · rw [checkOrder_check]
    refine List.nodup_append.2 ⟨h.once, by simp, fun other mem last single => ?_⟩
    rw [List.mem_singleton.1 single]
    rintro rfl
    exact unchecked (h.ended _ mem)
  · rw [checkOrder_check] at mem
    rcases List.mem_append.1 mem with mem | mem
    · exact set.ended other mem
    · rw [List.mem_singleton.1 mem]
      exact ⟨state, Table.get?_insert_self .., ended⟩

theorem request {checked : Checked} (done : session.checks.get? package = some (.done checked)) :
    (session.request package).Accounted where
  __ := h
  requested other mem := by
    rcases (NameSet.contains_add session.requested package other).1 mem with rfl | mem
    · exact ⟨checked, done⟩
    · exact h.requested other mem

section

variable (call : .check package paths imports ∈ session.calls)
  (call' : .check package paths' imports' ∈ session.calls)

include call call'

/-- A package is handed to the checker with one list of files, and one of imports. -/
theorem call_unique : paths = paths' ∧ imports = imports' := by
  obtain ⟨before, after, split⟩ := List.append_of_mem call
  have once := h.once
  have here : Call.checked? (.check package paths imports) = some package := rfl
  rw [checkOrder, split, List.filterMap_append, List.filterMap_cons_some here] at once
  obtain ⟨-, once, apart⟩ := List.nodup_append.1 once
  have named : ∀ calls : List Call, .check package paths' imports' ∈ calls →
      package ∈ calls.filterMap Call.checked? :=
    fun calls mem => List.mem_filterMap.2 ⟨_, mem, rfl⟩
  rw [split] at call'
  rcases List.mem_append.1 call' with earlier | later
  · exact absurd rfl (apart package (named before earlier) package List.mem_cons_self)
  · rcases List.mem_cons.1 later with same | later
    · cases same
      exact ⟨rfl, rfl⟩
    · exact absurd (named after later) (List.nodup_cons.1 once).1

theorem files_unique : paths = paths' :=
  (h.call_unique call call').1

end

end

end Accounted

/-- The session is accounted for, and checks were settled since `base`. -/
structure Proceeds (base session : Session U) : Prop where
  accounted : session.Accounted
  settles : Settles base session

theorem Proceeds.refl (h : session.Accounted) : Proceeds session session :=
  ⟨h, .refl session⟩

theorem Proceeds.learns (h : Proceeds base before) (learns : Learns before after) :
    Proceeds base after :=
  ⟨h.accounted.learns learns, h.settles.trans learns.settles⟩

/-- A check that was started is concluded. -/
theorem Settles.conclude (new : session.checks.get? package = none)
    (during : Settles (session.setCheck package .inProgress) before) {state : CheckState}
    (ended : state.isOver = true) : Settles session (before.setCheck package state) where
  states other old there := by
    have apart : other ≠ package := by
      rintro rfl
      rw [new] at there
      cases there
    have started := during.states other old
      (by rw [setCheck, Table.get?_insert_of_ne _ _ apart, there])
    rw [setCheck, Table.get?_insert_of_ne _ _ apart, started]
  ended other old there := by
    rw [setCheck, Table.get?_insert] at there
    split at there
    · cases there
      exact .inr ended
    · next apart =>
      rcases during.ended other old there with there | ended
      · rw [setCheck, Table.get?_insert_of_ne _ _ apart] at there
        exact .inl there
      · exact .inr ended

/-! ## Tasks -/

theorem proceeds_loaded (location : String) : Keeps (Proceeds base) (loaded env location) :=
  fun session h => h.learns (learns_loaded session location)

theorem proceeds_check (one : ∀ base location, Keeps (Proceeds base) (importOne location))
    (package : String) : Keeps (Proceeds base) (check env importOne package) := by
  intro session h
  rw [perform_check]
  cases there : session.checks.get? package with
  | some state => cases state <;> exact h
  | none =>
    dsimp only
    split
    · next has =>
      have started : (session.setCheck package .inProgress).Accounted :=
        h.accounted.setCheck has (not_concluded_of_none there) .inProgress
      have imported := keeps_importAll (one _) package (session.sources.importsOf package) ∅
        (session.setCheck package .inProgress) (.refl started)
      generalize (session.setCheck package .inProgress).perform
        (importAll importOne package (session.sources.importsOf package) ∅) = outcome at imported
      obtain ⟨result, after⟩ := outcome
      -- the package is still in progress, whatever became of its imports
      have during : after.checks.get? package = some .inProgress :=
        imported.settles.states package .inProgress (Table.get?_insert_self ..)
      have unchecked := not_concluded_of_inProgress during
      have has' := imported.accounted.files package _ during
      cases result with
      | error failure =>
        exact ⟨imported.accounted.setCheck has' unchecked _,
          h.settles.trans (.conclude there imported.settles rfl)⟩
      | ok found =>
        dsimp only
        rw [(perform_runCheck ..).1]
        have ended := CheckState.isOver_ofAnswer (env.frontend.check package
          (after.sources.filesOf package) (after.imported? found))
        exact ⟨imported.accounted.check has' unchecked ended _ _,
          h.settles.trans (.conclude there (imported.settles.record _) ended)⟩
    · exact h

theorem proceeds_importAt (depth : Nat) (base : Session U) (location : String) :
    Keeps (Proceeds base) (importAt env depth location) := by
  induction depth generalizing base location with
  | zero => exact keeps_throw _
  | succ depth ih => exact keeps_importAt_succ (proceeds_loaded location) (proceeds_check ih)

/-- A check that succeeds leaves its package checked without errors. -/
theorem done_of_check (ok : (session.perform (check env importOne package)).1 = .ok ()) :
    ∃ checked, (session.perform (check env importOne package)).2.checks.get? package =
      some (.done checked) := by
  rw [perform_check] at ok ⊢
  cases there : session.checks.get? package with
  | some state =>
    rw [there] at ok
    cases state with
    | done checked => exact ⟨checked, there⟩
    | inProgress | incomplete checked message | failed message => cases ok
  | none =>
    rw [there] at ok
    dsimp only at ok ⊢
    split at ok
    · next has =>
      rw [if_pos has]
      split at ok
      · next found after imported =>
        obtain ⟨ends, done, -⟩ := @perform_runCheck U env after package found
        obtain ⟨checked, answer⟩ := done ok
        rw [ends, answer]
        exact ⟨checked, Table.get?_insert_self ..⟩
      · cases ok
    · cases ok

theorem proceeds_importRequested (depth : Nat) (location : String) :
    Keeps (Proceeds base) (importRequested env depth location) := by
  refine (proceeds_loaded location).bind fun package session h => ?_
  have checked : Proceeds base (session.perform (check env (importAt env depth) package)).2 :=
    proceeds_check (proceeds_importAt depth) package session h
  have done := @done_of_check U env session package (importAt env depth)
  rw [perform_bind]
  generalize session.perform (check env (importAt env depth) package) = outcome at checked done
  obtain ⟨result, after⟩ := outcome
  cases result with
  | error failure => exact checked
  | ok value =>
    obtain ⟨_, done⟩ := done rfl
    have settles : Settles base (after.request package) :=
      ⟨checked.settles.states, checked.settles.ended⟩
    exact ⟨checked.accounted.request done, settles⟩

theorem proceeds_task (command : Command) : Keeps (Proceeds base) (command.task env) :=
  keeps_command proceeds_importRequested
    (fun depth => proceeds_check (proceeds_importAt depth)) command

end Session

/-! ## Requests -/

/-- What can be asked of a session. -/
inductive Request where
  | command (command : Command)
  | addTags (tags : List String)
  /-- The atlas of the session as it is. -/
  | findTypes

/-- The session after a request, whatever came of it. -/
def Request.run (env : Environment U) (session : Session U) : Request → Session U
  | .command asked => (session.perform (asked.task env)).2
  | .addTags tags => session.addTags tags
  | .findTypes => session

namespace Session

variable {env : Environment U} {base session : Session U}

/-- The session after requests, each served also after one that failed. -/
def serve (env : Environment U) (session : Session U) (requests : List Request) : Session U :=
  requests.foldl (Request.run env) session

theorem proceeds_serve (h : Proceeds base session) (requests : List Request) :
    Proceeds base (session.serve env requests) := by
  induction requests generalizing session with
  | nil => exact h
  | cons request rest ih =>
    refine ih ?_
    cases request with
    | command command => exact proceeds_task command session h
    | addTags tags => exact h.learns ⟨rfl, rfl, rfl, fun _ => id, id⟩
    | findTypes => exact h

/-- The packages that were asked for can all be described. -/
theorem Accounted.surveyAll (h : session.Accounted) (packages : List String) (atlas : Atlas) :
    ∃ found, session.surveyAll env packages atlas = .ok found := by
  induction packages generalizing atlas with
  | nil => exact ⟨atlas, rfl⟩
  | cons package rest ih =>
    rw [Session.surveyAll]
    split
    · next requested =>
      obtain ⟨checked, done⟩ := h.requested package requested
      have known : session.checked? package = some checked := by
        rw [checked?, done]
        rfl
      rw [known]
      exact ih _
    · exact ih atlas

/-- Whatever is asked of a session, and whatever comes of it: no check is left in
progress, the result of a check stays as it is whatever is asked later, no package is
handed to the checker twice, a package that was asked for is checked without errors and
has files, and the atlas can be made. -/
theorem checks_after_requests (env : Environment U) (config : Config)
    (requests later : List Request) :
    let session := (start config).serve env requests
    (∀ package, session.checks.get? package ≠ some .inProgress) ∧
    (∀ package state, session.checks.get? package = some state →
      (session.serve env later).checks.get? package = some state) ∧
    (∀ package, (session.calls.filterMap Call.checked?).count package ≤ 1) ∧
    (∀ package, session.requested.contains package = true →
      (∃ checked, session.checks.get? package = some (.done checked)) ∧
        session.sources.filesOf package ≠ []) ∧
    ∃ atlas, session.atlas env = .ok atlas := by
  intro session
  obtain ⟨accounted, settles⟩ : Proceeds (start config) session :=
    proceeds_serve (.refl (accounted_start config)) requests
  refine ⟨fun package during => ?_, ?_, fun package => ?_, fun package requested => ?_, ?_⟩
  · rcases settles.ended package .inProgress during with there | ended
    · cases there
    · cases ended
  · exact (proceeds_serve (.refl accounted) later).settles.states
  · exact List.nodup_iff_count.1 accounted.once package
  · obtain ⟨checked, done⟩ := accounted.requested package requested
    exact ⟨⟨checked, done⟩, (accounted.dense package).1 (accounted.files package _ done)⟩
  · exact accounted.surveyAll session.sources.packages {}

end Session

end GoAtlas
