import GoAtlas.Proofs.Session.Directory
import GoAtlas.Source.Frontend

/-!
# What a failure is about

A failure is recoverable if it is passed over for a package that is only imported. Such a
failure never leaves the imports of a package (`unrecoverable_importAll`): each import
passes over its own, and over those of the packages it imports in turn. So a recoverable
failure to add a package is about that package: about the location that was asked for, a
file in the directory it leads to, or the path of the package there (`add_blames`).

`Comes` says what a task comes to from a session: what holds of its result and of the
session after it, and what holds of its failure.
-/

namespace GoAtlas

variable {U : Type}

/-! ## What search roots do not find -/

namespace Roots

variable {roots : Roots} {tree : FileTree} {tags : NameSet} {location other : String}
  {searched : List FilePath}

theorem selected_ne_notFound {dir : FilePath} {names : List String} :
    selected tree tags dir names ≠ .error (.notFound other searched) := by
  induction names with
  | nil =>
    intro h
    cases h
  | cons name rest ih =>
    intro h
    rw [selected_cons] at h
    split at h
    next => cases h
    split at h
    next failed => exact ih (failed.trans h)
    next => cases h

theorem eq_of_directory_notFound
    (h : roots.directory tree location = .error (.notFound other searched)) :
    other = location := by
  unfold directory at h
  split at h
  next =>
    dsimp only at h
    split at h
    next =>
      cases h
      rfl
    next => cases h
  next =>
    split at h
    next => cases h
    next =>
      cases h
      rfl

theorem locate_ne_notFound {answer : Place × String}
    (found : roots.directory tree location = .ok answer) :
    roots.locate tree tags location ≠ .error (.notFound other searched) := by
  intro h
  obtain ⟨place, importPath⟩ := answer
  rw [locate, found] at h
  simp only [bind, Except.bind] at h
  cases chosen : selected tree tags place.path ((tree.filesIn place).filter isSourceName) with
  | error fault =>
    simp only [chosen] at h
    cases h
    exact selected_ne_notFound chosen
  | ok names =>
    simp only [chosen] at h
    split at h
    next => cases h
    next => cases h

/-- What is not found is the location that was looked for. -/
theorem eq_of_locate_notFound
    (h : roots.locate tree tags location = .error (.notFound other searched)) :
    other = location := by
  cases found : roots.directory tree location with
  | error fault =>
    rw [locate, found] at h
    cases h
    exact eq_of_directory_notFound found
  | ok answer => exact absurd h (locate_ne_notFound found)

end Roots

/-- What the locator does not find is the location it was asked for. -/
def Locator.Honest (locator : Locator) (tree : FileTree) : Prop :=
  ∀ tags location other searched,
    locator.locate tree tags location = .error (.notFound other searched) → other = location

theorem Locator.honest_search (roots : Roots) (tree : FileTree) :
    (Locator.search roots).Honest tree :=
  fun _ _ _ _ h => Roots.eq_of_locate_notFound h

/-- The checker of the front end knows every package it is asked for. -/
def Frontend.KnowsAll (frontend : Frontend U) : Prop :=
  ∀ package files imported? path,
    frontend.check package files imported? ≠ .error (.unknownPackage path)

theorem Source.frontend_knowsAll : Source.frontend.KnowsAll := by
  intro package files imported? path h
  have answer : Check.package package files imported? = .error (.unknownPackage path) := h
  unfold Check.package at answer
  split at answer
  · cases answer
  · dsimp only at answer
    split at answer
    · cases answer
    · split at answer <;> cases answer

namespace Session

variable {env : Environment U} {session : Session U} {location package : String}
  {located : Located}

/-! ## What a task comes to -/

section

variable {α β : Type}

/-- One property for a result and the session after it, and one for a failure. -/
def Ends (result : α → Session U → Prop) (failed : Failure → Prop) :
    Except Failure α × Session U → Prop
  | (.ok value, after) => result value after
  | (.error failure, _) => failed failure

/-- What the task comes to from the session. -/
def Comes (session : Session U) (task : Task U α) (result : α → Session U → Prop)
    (failed : Failure → Prop) : Prop :=
  Ends result failed (session.perform task)

variable {task : Task U α} {next : α → Task U β} {result : α → Session U → Prop}
  {last : β → Session U → Prop} {failed : Failure → Prop}

theorem comes_modify (session : Session U) (f : Session U → Session U) :
    Comes session (modify f : Task U PUnit) (fun _ _ => True) failed :=
  trivial

theorem Comes.bind (first : Comes session task result failed)
    (others : ∀ value after, result value after → Comes after (next value) last failed) :
    Comes session (task >>= next) last failed := by
  unfold Comes at first ⊢
  rw [perform_bind]
  generalize session.perform task = outcome at first
  obtain ⟨answer, after⟩ := outcome
  cases answer with
  | ok value => exact others value after first
  | error failure => exact first

theorem Comes.and {other : α → Session U → Prop} (h : Comes session task result failed)
    (more : ∀ value, (session.perform task).1 = .ok value → other value (session.perform task).2) :
    Comes session task (fun value after => result value after ∧ other value after) failed := by
  unfold Comes at h ⊢
  generalize session.perform task = outcome at h more
  obtain ⟨answer, after⟩ := outcome
  cases answer with
  | ok value => exact ⟨h, more value rfl⟩
  | error failure => exact h

theorem Comes.mono {other : Failure → Prop} (h : Comes session task result failed)
    (weaken : ∀ failure, failed failure → other failure) : Comes session task result other := by
  unfold Comes at h ⊢
  generalize session.perform task = outcome at h
  obtain ⟨answer, after⟩ := outcome
  cases answer with
  | ok value => exact h
  | error failure => exact weaken failure h

theorem Comes.of_error {failure : Failure} (h : Comes session task result failed)
    (error : (session.perform task).1 = .error failure) : failed failure := by
  unfold Comes at h
  generalize session.perform task = outcome at h error
  obtain ⟨answer, after⟩ := outcome
  cases error
  exact h

/-- No failure of the task is one that is passed over. -/
def Unrecoverable (task : Task U α) : Prop :=
  ∀ session, Comes session task (fun _ _ => True) fun failure => failure.isRecoverable = false

theorem unrecoverable_pure (value : α) : Unrecoverable (pure value : Task U α) :=
  fun _ => trivial

theorem Unrecoverable.bind (first : Unrecoverable task)
    (others : ∀ value, Unrecoverable (next value)) : Unrecoverable (task >>= next) :=
  fun session => (first session).bind fun value after _ => others value after

/-- Whatever the task is: what is left to fail is not recoverable. -/
theorem unrecoverable_passOver (task : Task U α) (value : α) :
    Unrecoverable (tryCatch task (passOver value)) := by
  intro session
  unfold Comes
  rw [perform_tryCatch]
  generalize session.perform task = outcome
  obtain ⟨answer, after⟩ := outcome
  cases answer with
  | ok value => trivial
  | error failure =>
    dsimp only
    rw [perform_passOver]
    split
    · trivial
    · next fatal => exact eq_false_of_ne_true fatal

end

/-! ## Imports -/

/-- An import fails only with what cannot be passed over, however deep it goes. -/
theorem unrecoverable_importAt (env : Environment U) (depth : Nat) (location : String) :
    Unrecoverable (importAt env depth location) := by
  cases depth with
  | zero => exact fun _ => rfl
  | succ depth =>
    refine (unrecoverable_passOver _ none).bind fun package => ?_
    cases package with
    | none => exact unrecoverable_pure none
    | some package =>
      exact (unrecoverable_passOver _ ()).bind fun _ => unrecoverable_pure (some package)

/-- So do any number of imports, in any order. -/
theorem unrecoverable_importAll {importOne : String → Task U (Option String)}
    (one : ∀ location, Unrecoverable (importOne location)) (package : String)
    (literals : List String) (found : Table String) :
    Unrecoverable (importAll importOne package literals found) := by
  induction literals generalizing found with
  | nil => exact unrecoverable_pure found
  | cons literal rest ih =>
    rw [importAll]
    split
    · exact ih found
    · refine (one literal).bind fun path => ?_
      cases path with
      | none => exact ih found
      | some path => exact ih _

/-! ## The package that was asked for -/

/-- The location leads to the package: it was located as this before, or is found as this
now. -/
def LeadsTo (env : Environment U) (session : Session U) (location : String)
    (located : Located) : Prop :=
  session.located.get? location = some located ∨
    session.located.get? location = none ∧ env.Finds session.tags location located

/-- The failure is about the package at the location: about the location as it is asked
for, a file in the directory it leads to, or the path of the package there. -/
def Blames (env : Environment U) (session : Session U) (location : String) : Failure → Prop
  | .packageNotFound path _ | .noSource path => path = location
  | .parse file _ => ∃ located, LeadsTo env session location located ∧
      ∃ name ∈ located.files ++ located.testFiles, file = located.dir.join name
  | .noFiles package | .typeCheck package _ => ∃ located, LeadsTo env session location located ∧
      package = located.package
  | _ => False

/-- A check fails recoverably only for the package that is checked. -/
def Faults (package : String) (failure : Failure) : Prop :=
  failure.isRecoverable = true →
    failure = .noFiles package ∨ ∃ message, failure = .typeCheck package message

theorem comes_runCheck (knows : env.frontend.KnowsAll) (session : Session U) (package : String)
    (found : Table String) :
    Comes session (runCheck env package found) (fun _ _ => True) fun failure =>
      failure = .unending ∨ ∃ message, failure = .typeCheck package message := by
  have fails := (@perform_runCheck U env session package found).2.2
  unfold Comes
  generalize session.perform (runCheck env package found) = outcome at fails
  obtain ⟨answer, after⟩ := outcome
  cases answer with
  | ok value => trivial
  | error failure =>
    rcases fails failure rfl with ⟨unending, -⟩ | ⟨-, thrown | ⟨path, unknown⟩⟩
    · exact .inl unending
    · exact .inr thrown
    · exact absurd unknown (knows _ _ _ path)

/-- The check fails for want of files only where there are none. -/
theorem comes_check (knows : env.frontend.KnowsAll) {importOne : String → Task U (Option String)}
    (one : ∀ location, Unrecoverable (importOne location)) (session : Session U)
    (package : String) :
    Comes session (check env importOne package) (fun _ _ => True) fun failure =>
      Faults package failure ∧
        (session.sources.hasPackage package = true → failure ≠ .noFiles package) := by
  have ofTypes (message : String) : Faults package (.typeCheck package message) ∧
      (session.sources.hasPackage package = true →
        Failure.typeCheck package message ≠ .noFiles package) :=
    ⟨fun _ => .inr ⟨message, rfl⟩, fun _ eq => by cases eq⟩
  unfold Comes
  rw [perform_check]
  cases session.checks.get? package with
  | some state =>
    cases state with
    | done checked => trivial
    | inProgress => exact ⟨fun recoverable => (by cases recoverable), fun _ eq => by cases eq⟩
    | incomplete checked message => exact ofTypes message
    | failed message => exact ofTypes message
  | none =>
    dsimp only
    split
    · have imported := unrecoverable_importAll one package (session.sources.importsOf package) ∅
        (session.setCheck package .inProgress)
      unfold Comes at imported
      generalize (session.setCheck package .inProgress).perform
        (importAll importOne package (session.sources.importsOf package) ∅) = outcome at imported
      obtain ⟨answer, after⟩ := outcome
      cases answer with
      | ok found =>
        refine (comes_runCheck knows after package found).mono ?_
        rintro _ (rfl | ⟨message, rfl⟩)
        · exact ⟨fun recoverable => (by cases recoverable), fun _ eq => by cases eq⟩
        · exact ofTypes message
      | error failure =>
        -- the imports left a failure that cannot be passed over
        have fatal : failure.isRecoverable = false := imported
        refine ⟨fun recoverable => ?_, fun _ none => ?_⟩
        · rw [fatal] at recoverable
          cases recoverable
        · rw [none] at fatal
          cases fatal
    · next none => exact ⟨fun _ => .inl rfl, fun has => absurd has none⟩

/-- Reading fails recoverably only for one of the files. -/
def Misreads (dir : FilePath) (names : List String) (failure : Failure) : Prop :=
  failure.isRecoverable = true →
    ∃ name ∈ names, ∃ message, failure = .parse (dir.join name) message

theorem comes_parseFile (env : Environment U) (session : Session U) (package : String)
    (path : FilePath) (content : String) :
    Comes session (parseFile env package path content) (fun _ _ => True) fun failure =>
      ∃ message, failure = .parse path message := by
  unfold Comes
  rw [perform_parseFile]
  split
  · trivial
  · cases env.frontend.parse path content with
    | error message => exact ⟨message, rfl⟩
    | ok file => trivial

/-- The files that are left to read are among the names. -/
theorem comes_parseFiles (env : Environment U) (package : String) {dir : FilePath}
    {names rest : List String} (among : rest ⊆ names) (session : Session U) :
    Comes session (parseFiles env package dir rest) (fun _ _ => True) (Misreads dir names) := by
  induction rest generalizing session with
  | nil => trivial
  | cons name rest ih =>
    obtain ⟨mem, among⟩ := List.cons_subset.1 among
    unfold Comes
    rw [perform_parseFiles_cons]
    cases env.tree.read (dir.join name) with
    | error fault =>
      intro recoverable
      cases recoverable
    | ok content =>
      dsimp only
      have parsed := comes_parseFile env session package (dir.join name) content
      unfold Comes at parsed
      generalize session.perform (parseFile env package (dir.join name) content) = outcome at parsed
      obtain ⟨answer, after⟩ := outcome
      cases answer with
      | ok value => exact ih among after
      | error failure => exact fun _ => ⟨name, mem, parsed⟩

/-- Either failure is about the package at the location, if it is recoverable. -/
theorem blames_of_misreads (leads : LeadsTo env session location located) {failure : Failure}
    (misreads : Misreads located.dir (located.files ++ located.testFiles) failure)
    (recoverable : failure.isRecoverable = true) : Blames env session location failure := by
  obtain ⟨name, mem, message, rfl⟩ := misreads recoverable
  exact ⟨located, leads, name, mem, rfl⟩

theorem blames_of_faults (leads : LeadsTo env session location located) {failure : Failure}
    (faults : Faults located.package failure)
    (recoverable : failure.isRecoverable = true) : Blames env session location failure := by
  obtain rfl | ⟨message, rfl⟩ := faults recoverable
  · exact ⟨located, leads, rfl⟩
  · exact ⟨located, leads, rfl⟩

/-- Locating fails recoverably only where nothing is found. -/
theorem comes_locate (session : Session U) (location : String) :
    Comes session (locate env location) (fun located _ => LeadsTo env session location located)
      fun failure => failure.isRecoverable = true → ∃ path searched reason,
        env.locator.locate env.tree session.tags location = .error (.notFound path searched) ∧
          failure = .packageNotFound path reason := by
  unfold Comes
  rcases perform_locate env session location with
    ⟨failure, missing, faults⟩ | ⟨located, after, found, locates⟩
  · rw [missing]
    rcases faults with lost | ⟨path, cause, -, rfl⟩
    · exact fun _ => lost
    · intro recoverable
      cases recoverable
  · rw [found]
    cases locates with
    | before there => exact .inl there
    | now new finds => exact .inr ⟨new, finds⟩

theorem comes_settle (session : Session U) (package : String) (dir : FilePath)
    {fails : Failure → Prop} :
    Comes session (settle package dir) (fun _ _ => True) fun failure =>
      failure.isRecoverable = true → fails failure := by
  unfold Comes
  rw [perform_settle]
  cases session.directories.get? package with
  | none => trivial
  | some previous =>
    dsimp only
    split
    · trivial
    · intro recoverable
      cases recoverable

theorem comes_load (honest : env.locator.Honest env.tree) (session : Session U)
    (location : String) :
    Comes session (load env location)
      (fun package _ => ∃ located, LeadsTo env session location located ∧ package = located.package)
      fun failure => failure.isRecoverable = true → Blames env session location failure := by
  refine ((comes_locate session location).mono fun failure lost recoverable => ?_).bind
    fun located after leads => ?_
  · obtain ⟨path, searched, reason, missing, rfl⟩ := lost recoverable
    exact honest _ _ _ _ missing
  refine (comes_settle after _ _).bind fun _ settled _ => ?_
  unfold Comes
  rw [perform_get_bind]
  dsimp only
  have among : (located.files ++ if settled.config.includeTestFiles then located.testFiles else [])
      ⊆ located.files ++ located.testFiles := by
    split
    · exact List.Subset.refl _
    · rw [List.append_nil]
      exact List.subset_append_left _ _
  generalize (located.files ++ if settled.config.includeTestFiles then located.testFiles else [])
    = files at among ⊢
  split
  · exact fun _ => rfl
  · have read := (comes_parseFiles env located.package among
      settled).mono fun failure misreads recoverable =>
        blames_of_misreads leads misreads recoverable
    exact read.bind fun _ _ _ => ⟨located, leads, rfl⟩

/-- A package that is loaded is the one the location leads to; one that is not is to blame. -/
theorem comes_loaded (honest : env.locator.Honest env.tree) (session : Session U)
    (location : String) :
    Comes session (loaded env location)
      (fun package _ => ∃ located, LeadsTo env session location located ∧ package = located.package)
      fun failure => failure.isRecoverable = true → Blames env session location failure := by
  have loads := comes_load honest session location
  unfold Comes at loads ⊢
  obtain same | ⟨located, there, -, same⟩ := perform_loaded env session location
  · rwa [same]
  · rw [same]
    exact ⟨located, .inl there, rfl⟩

/-- From any session, a recoverable failure to add a package is about that package. -/
theorem blames_of_add (honest : env.locator.Honest env.tree) (knows : env.frontend.KnowsAll)
    {failure : Failure} (failed : (session.perform (add env location)).1 = .error failure)
    (recoverable : failure.isRecoverable = true) : Blames env session location failure := by
  have loads := comes_loaded honest session location
  unfold Comes at loads
  rw [perform_add] at failed
  generalize session.perform (loaded env location) = outcome at loads failed
  obtain ⟨answer, after⟩ := outcome
  cases answer with
  | error cause =>
    cases failed
    exact loads recoverable
  | ok package =>
    obtain ⟨located, leads, rfl⟩ := loads
    have checked := (comes_check knows (unrecoverable_importAt env (importDepth env session)) after
      located.package).mono fun _ => And.left
    have requested := checked.bind fun _ session _ => session.comes_modify fun session =>
      session.request located.package
    exact blames_of_faults leads (requested.of_error failed) recoverable

/-- Over any file tree and from any session: a recoverable failure to add a package is about
the package that was asked for. However many packages are imported for it, in whatever order
and however deep, none of their recoverable failures comes out. -/
theorem add_blames (roots : Roots) (tree : FileTree) (session : Session SourceTree)
    (location : String) :
    let env : Environment SourceTree :=
      { frontend := Source.frontend, locator := .search roots, tree }
    (∀ failure, (session.perform (add env location)).1 = .error failure →
      failure.isRecoverable = true → Blames env session location failure) ∧
    ∀ depth package literals found failure,
      (session.perform (importAll (importAt env depth) package literals found)).1 =
        .error failure → failure.isRecoverable = false := by
  intro env
  constructor
  · intro failure failed recoverable
    exact blames_of_add (Locator.honest_search roots tree) Source.frontend_knowsAll failed
      recoverable
  · intro depth package literals found failure failed
    have imports := unrecoverable_importAll (unrecoverable_importAt env depth) package literals
      found
    exact (imports session).of_error failed

/-- A package that imports another, which imports one that is not there. -/
def lostTree : FileTree :=
  (({} : FileTree).put ⟨"/app/a.go"⟩ (.text "package app\n\nimport \"mid\"\n\nvar V mid.T\n")).put
    ⟨"/mid/m.go"⟩ (.text "package mid\n\nimport \"lost\"\n\ntype T lost.X\n")

def lostSource : Environment SourceTree :=
  topSource lostTree

/-- The missing package is not to blame when the one that imports it is added, and neither is
to blame when the first one is. An import that goes too deep is a failure of another kind. -/
theorem add_blames_lost :
    ((start {}).perform (add lostSource "app")).1 = .ok () ∧
      ((start {}).perform (add lostSource "mid")).1 =
        .error (.typeCheck "mid" "/mid/m.go: could not import lost") ∧
      Blames lostSource (start {}) "mid" (.typeCheck "mid" "/mid/m.go: could not import lost") ∧
      ((start {}).perform (importAll (importAt lostSource 0) "app" ["mid"] ∅)).1 =
        .error (.circularDependency "mid") ∧
      (Failure.circularDependency "mid").isRecoverable = false := by
  obtain ⟨added, failed, deep⟩ : ((start {}).perform (add lostSource "app")).1 = .ok () ∧
      ((start {}).perform (add lostSource "mid")).1 =
        .error (.typeCheck "mid" "/mid/m.go: could not import lost") ∧
      ((start {}).perform (importAll (importAt lostSource 0) "app" ["mid"] ∅)).1 =
        .error (.circularDependency "mid") := by
    decide +kernel
  exact ⟨added, failed,
    (add_blames topRoots lostTree (start {}) "mid").1 _ failed rfl, deep,
    (add_blames topRoots lostTree (start {}) "mid").2 0 "app" ["mid"] ∅ _ deep⟩

end Session

end GoAtlas
