import GoAtlas.Proofs.Session.Checks

/-!
# What lasts over requests

A request loads packages and has them checked, in an order that depends on everything. A
property that outlasts the loading of a package and each step of checking outlasts every
request, whatever comes of it (`Outlasts.serve`). Loading itself has steps: a package is
located, held to its directory, and its files are read one by one. `Lasting` is for a
property that outlasts each of these as well, so that loading need not be looked at.
-/

namespace GoAtlas.Session

variable {U : Type} {env : Environment U} {session : Session U}

/-- The property outlasts the loading of a package, and what checks make of a session. -/
structure Checking (env : Environment U) (kept : Session U → Prop) : Prop where
  loaded : ∀ location, Keeps kept (Session.loaded env location)
  /-- A check is started, or is given up before the checker is asked. -/
  undecided : ∀ session package state, kept session → state.checked? = none →
    kept (session.setCheck package state)
  /-- The checker is handed the files of a package, and its answer is kept. -/
  conclude : ∀ session package found imports, kept session →
    kept ((session.record (.check package
      ((session.sources.filesOf package).map fun file => file.path) imports)).setCheck package
        (.ofAnswer (env.frontend.check package (session.sources.filesOf package)
          (session.imported? found))))

/-- So it does what requests make of a session. -/
structure Outlasts (env : Environment U) (kept : Session U → Prop) : Prop
    extends Checking env kept where
  request : ∀ session package, kept session → kept (session.request package)
  addTags : ∀ session tags, kept session → kept (session.addTags tags)

/-- The property outlasts whatever a request makes of a session, step by step. -/
structure Lasting (env : Environment U) (kept : Session U → Prop) : Prop
    extends Steady env kept, Outlasts env kept where
  loaded location := Steady.keeps_loaded ⟨remember, settle, record, addFile⟩ location

variable {kept : Session U → Prop}

namespace Checking

variable (outlasts : Checking env kept)

include outlasts

theorem keeps_runCheck (package : String) (found : Table String) :
    Keeps kept (runCheck env package found) := by
  intro session h
  rw [(perform_runCheck ..).1]
  exact outlasts.conclude session package found _ h

theorem keeps_check {importOne : String → Task U (Option String)}
    (one : ∀ location, Keeps kept (importOne location)) (package : String) :
    Keeps kept (check env importOne package) := by
  intro session h
  rw [perform_check]
  cases session.checks.get? package with
  | some state => cases state <;> exact h
  | none =>
    dsimp only
    split
    · have imported := keeps_importAll one package (session.sources.importsOf package) ∅
        (session.setCheck package .inProgress) (outlasts.undecided session package _ h rfl)
      generalize (session.setCheck package .inProgress).perform
        (importAll importOne package (session.sources.importsOf package) ∅) = outcome at imported
      obtain ⟨result, after⟩ := outcome
      cases result with
      | error failure => exact outlasts.undecided after package _ imported rfl
      | ok found => exact outlasts.keeps_runCheck package found after imported
    · exact h

theorem keeps_importAt (depth : Nat) (location : String) :
    Keeps kept (importAt env depth location) := by
  induction depth generalizing location with
  | zero => exact keeps_throw _
  | succ depth ih => exact keeps_importAt_succ (outlasts.loaded location) (outlasts.keeps_check ih)

end Checking

namespace Outlasts

variable (outlasts : Outlasts env kept)

include outlasts

/-- What follows once the package that was asked for is loaded. -/
theorem keeps_checkRequested (depth : Nat) (package : String) :
    Keeps kept (do
      check env (importAt env depth) package
      modify fun session => session.request package) :=
  (outlasts.keeps_check (outlasts.keeps_importAt depth) package).bind fun _ =>
    keeps_modify fun session => outlasts.request session package

theorem keeps_importRequested (depth : Nat) (location : String) :
    Keeps kept (importRequested env depth location) :=
  (outlasts.loaded location).bind fun package => outlasts.keeps_checkRequested depth package

theorem keeps_task (command : Command) : Keeps kept (command.task env) :=
  keeps_command outlasts.keeps_importRequested
    (fun depth => outlasts.keeps_check (outlasts.keeps_importAt depth)) command

/-- The property outlasts a request. -/
theorem run (request : Request) (h : kept session) : kept (request.run env session) := by
  cases request with
  | command command => exact outlasts.keeps_task command session h
  | addTags tags => exact outlasts.addTags session tags h
  | findTypes => exact h

/-- The property outlasts any number of requests. -/
theorem serve (h : kept session) (requests : List Request) :
    kept (session.serve env requests) := by
  induction requests generalizing session with
  | nil => exact h
  | cons request rest ih => exact ih (outlasts.run request h)

end Outlasts

end GoAtlas.Session
