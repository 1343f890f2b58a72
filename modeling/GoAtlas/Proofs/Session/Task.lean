import GoAtlas.Session.Command

/-!
# Tasks

What a task does to a session is read off its parts: `Session.perform` of a
sequence performs the first part and goes on from the session it leaves, also
where it failed. `Keeps` says that a task keeps a property of the session whether
it succeeds or fails; a task keeps what its parts keep, and a run what each of its
commands keeps.
-/

namespace GoAtlas

namespace Session

variable {U α β : Type} (session : Session U)

@[simp] theorem perform_set (other : Session U) :
    session.perform (set other : Task U PUnit) = (.ok ⟨⟩, other) := rfl

theorem perform_bind (task : Task U α) (next : α → Task U β) :
    session.perform (task >>= next) =
      match session.perform task with
      | (.ok value, after) => after.perform (next value)
      | (.error failure, after) => (.error failure, after) := by
  show (task.run >>= ExceptT.bindCont next).run session = _
  rw [StateT.run_bind]
  show (match task.run.run session with | (result, after) => _) = _
  unfold perform
  cases task.run.run session with
  | mk result after => cases result <;> rfl

/-- A task that reads the session goes on from the session it read. -/
theorem perform_get_bind (next : Session U → Task U β) :
    session.perform (get >>= next) = session.perform (next session) :=
  perform_bind session get next

theorem perform_tryCatch (task : Task U α) (handle : Failure → Task U α) :
    session.perform (tryCatch task handle) =
      match session.perform task with
      | (.ok value, after) => (.ok value, after)
      | (.error failure, after) => after.perform (handle failure) := by
  cases done : session.perform task with
  | mk result after =>
    have step : task session = (result, after) := done
    simp only [perform, tryCatch, tryCatchThe, MonadExceptOf.tryCatch, ExceptT.tryCatch,
      ExceptT.run, ExceptT.mk, StateT.run, bind, StateT.bind, step]
    cases result <;> rfl

theorem perform_map (f : α → β) (task : Task U α) :
    session.perform (f <$> task) =
      match session.perform task with
      | (.ok value, after) => (.ok (f value), after)
      | (.error failure, after) => (.error failure, after) :=
  perform_bind session task fun value => pure (f value)

theorem perform_passOver (value : α) (failure : Failure) :
    session.perform (passOver value failure) =
      if failure.isRecoverable then (.ok value, session) else (.error failure, session) := by
  rw [passOver]
  split <;> rfl

variable {session}

/-- The property holds after the task if it holds before, whatever comes of it. -/
def Keeps (kept : Session U → Prop) (task : Task U α) : Prop :=
  ∀ session, kept session → kept (session.perform task).2

variable {kept : Session U → Prop}

theorem keeps_pure (value : α) : Keeps kept (pure value : Task U α) :=
  fun _ h => h

theorem keeps_throw (failure : Failure) : Keeps kept (throw failure : Task U α) :=
  fun _ h => h

theorem keeps_modify {f : Session U → Session U} (h : ∀ session, kept session → kept (f session)) :
    Keeps kept (modify f : Task U PUnit) :=
  h

theorem Keeps.bind {task : Task U α} {next : α → Task U β} (first : Keeps kept task)
    (others : ∀ value, Keeps kept (next value)) : Keeps kept (task >>= next) := by
  intro session h
  have after := first session h
  rw [perform_bind]
  generalize session.perform task = outcome at after
  cases outcome with
  | mk result left =>
    cases result with
    | ok value => exact others value left after
    | error failure => exact after

theorem keeps_get_bind {next : Session U → Task U β}
    (h : ∀ session, kept session → kept (session.perform (next session)).2) :
    Keeps kept (get >>= next) := by
  intro session before
  rw [perform_get_bind]
  exact h session before

theorem Keeps.tryCatch {task : Task U α} {handle : Failure → Task U α} (first : Keeps kept task)
    (others : ∀ failure, Keeps kept (handle failure)) : Keeps kept (tryCatch task handle) := by
  intro session h
  have after := first session h
  rw [perform_tryCatch]
  generalize session.perform task = outcome at after
  cases outcome with
  | mk result left =>
    cases result with
    | ok value => exact after
    | error failure => exact others failure left after

theorem keeps_passOver (value : α) (failure : Failure) :
    Keeps kept (passOver value failure : Task U α) := by
  unfold passOver
  split
  · exact keeps_pure value
  · exact keeps_throw failure

end Session

variable {U : Type}

/-! ## Locating and loading -/

/-- The package is found at a location, with or without source. -/
def Environment.Finds (env : Environment U) (tags : NameSet) (location : String)
    (located : Located) : Prop :=
  env.locator.locate env.tree tags location = .ok located ∨
    env.locator.locate env.tree tags location = .error (.noSource located)

namespace Session

/-- The session once a location is located: it was before, or it is found now and
remembered. -/
inductive Locates (env : Environment U) (session : Session U) (location : String)
    (located : Located) : Session U → Prop
  | before (there : session.located.get? location = some located) :
    Locates env session location located session
  | now (new : session.located.get? location = none)
    (found : env.Finds session.tags location located) :
    Locates env session location located (session.remember location located)

/-- Locating finds a package, or it fails as the locator does and changes nothing. -/
theorem perform_locate (env : Environment U) (session : Session U) (location : String) :
    (∃ failure, session.perform (locate env location) = (.error failure, session) ∧
      ((∃ path searched reason,
        env.locator.locate env.tree session.tags location = .error (.notFound path searched) ∧
          failure = .packageNotFound path reason) ∨
        ∃ path cause,
          env.locator.locate env.tree session.tags location = .error (.unreadable path cause) ∧
            failure = .fileSystem path cause)) ∨
      ∃ located after, session.perform (locate env location) = (.ok located, after) ∧
        Locates env session location located after := by
  rw [locate, perform_get_bind]
  cases there : session.located.get? location with
  | some located => exact .inr ⟨located, session, rfl, .before there⟩
  | none =>
    dsimp only
    cases answer : env.locator.locate env.tree session.tags location with
    | ok located => exact .inr ⟨located, _, rfl, .now there (.inl answer)⟩
    | error fault =>
      cases fault with
      | noSource located => exact .inr ⟨located, _, rfl, .now there (.inr answer)⟩
      | notFound path searched => exact .inl ⟨_, rfl, .inl ⟨path, searched, _, rfl, rfl⟩⟩
      | unreadable path cause => exact .inl ⟨_, rfl, .inr ⟨path, cause, rfl, rfl⟩⟩

theorem knownPackage?_eq {session : Session U} {location : String} {located : Located}
    (there : session.located.get? location = some located) :
    session.knownPackage? location = some located.package := by
  rw [knownPackage?, there, Option.map_some]

/-- A package is loaded, unless its location is known and it has files. -/
theorem perform_loaded (env : Environment U) (session : Session U) (location : String) :
    session.perform (loaded env location) = session.perform (load env location) ∨
      ∃ located, session.located.get? location = some located ∧
        session.sources.hasPackage located.package = true ∧
        session.perform (loaded env location) = (.ok located.package, session) := by
  rw [loaded, perform_get_bind]
  cases there : session.located.get? location with
  | none =>
    rw [knownPackage?, there]
    exact .inl rfl
  | some located =>
    rw [knownPackage?_eq there]
    dsimp only
    split
    · next has => exact .inr ⟨located, rfl, has, rfl⟩
    · exact .inl rfl

end Session

/-! ## Commands -/

/-- What a session can be asked to do. -/
inductive Command where
  | add (location : String)
  | addRecursive (location : String)
  | typeCheck (location : String)

/-- What a command does. -/
def Command.task (env : Environment U) : Command → Task U Unit
  | .add location => Session.add env location
  | .addRecursive location => Session.addRecursive env location
  | .typeCheck location => discard (Session.typeCheck env location)

namespace Session

/-- The session after commands, where each is obeyed also after one that failed. -/
def runAll (env : Environment U) : Session U → List Command → Session U
  | session, [] => session
  | session, command :: rest => runAll env (session.perform (command.task env)).2 rest

variable {env : Environment U} {kept : Session U → Prop}

theorem keeps_importAll {importOne : String → Task U (Option String)}
    (one : ∀ location, Keeps kept (importOne location)) (package : String)
    (literals : List String) (found : Table String) :
    Keeps kept (importAll importOne package literals found) := by
  induction literals generalizing found with
  | nil => exact keeps_pure found
  | cons literal rest ih =>
    rw [importAll]
    split
    · exact ih found
    · refine (one literal).bind fun path => ?_
      cases path with
      | none => exact ih found
      | some path => exact ih _

/-- An import loads a package and has it checked. -/
theorem keeps_importAt_succ {depth : Nat} {location : String}
    (load : Keeps kept (loaded env location))
    (checks : ∀ package, Keeps kept (check env (importAt env depth) package)) :
    Keeps kept (importAt env (depth + 1) location) := by
  refine Keeps.bind (Keeps.tryCatch (load.bind fun package => keeps_pure (some package))
    (keeps_passOver none)) fun package => ?_
  cases package with
  | none => exact keeps_pure none
  | some package =>
    exact ((checks package).tryCatch (keeps_passOver ())).bind fun _ => keeps_pure (some package)

theorem keeps_addEach {depth : Nat}
    (requested : ∀ location, Keeps kept (importRequested env depth location))
    (locations : List String) : Keeps kept (addEach env depth locations) := by
  induction locations with
  | nil => exact keeps_pure ()
  | cons location rest ih =>
    refine (Keeps.tryCatch (requested location) fun failure => ?_).bind fun _ => ih
    split
    · exact keeps_pure ()
    · exact keeps_throw failure

/-- A command imports packages that are asked for, or checks one. -/
theorem keeps_command
    (requested : ∀ depth location, Keeps kept (importRequested env depth location))
    (checks : ∀ depth package, Keeps kept (check env (importAt env depth) package))
    (command : Command) : Keeps kept (command.task env) := by
  cases command with
  | add location => exact keeps_get_bind fun session => requested _ location session
  | addRecursive location =>
    refine keeps_get_bind fun session => ?_
    refine (Keeps.tryCatch (requested _ location) fun failure => ?_).bind (fun _ => ?_) session
    · split
      · exact keeps_pure ()
      · exact keeps_throw failure
    · refine keeps_get_bind fun session h => ?_
      split
      · exact h
      · dsimp only
        split
        · exact h
        · exact keeps_addEach (requested _) _ session h
  | typeCheck location =>
    refine Keeps.bind ?_ fun _ => keeps_pure ()
    refine keeps_get_bind fun session => ?_
    refine Keeps.bind (checks _ _) (fun _ => ?_) session
    refine keeps_get_bind fun session h => ?_
    split <;> exact h

theorem runAll_keeps (step : ∀ command : Command, Keeps kept (command.task env))
    {session : Session U} (h : kept session) (commands : List Command) :
    kept (session.runAll env commands) := by
  induction commands generalizing session with
  | nil => exact h
  | cons command rest ih => exact ih (step command session h)

end Session

end GoAtlas
