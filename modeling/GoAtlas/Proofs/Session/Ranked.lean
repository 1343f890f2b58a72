import GoAtlas.Proofs.Check.Thorough
import GoAtlas.Proofs.Session.ImportGraph

/-!
# The order of checks

The packages that were handed to the checker stand in an order in which each comes
after those it imports (`Ranked`). Left out are the packages that failed before it came
to their check, because of a failure below them that is fatal. Their own failure is kept
as the result of the check, and it is not fatal any more when it is met again.

A package is handed to the checker after its imports, and only if none of them failed
fatally. So what an import, a check or a request leaves behind is said together with
what came of it: unless that is a fatal failure, nothing fails that did not fail before
(`Imported`, `Examined`, `Added`).

What is known of packages refers only to those whose checks are over (`Apart`), so no check is
given anything that leads back to its own package. Where all checks that are given nothing of
the kind end (`AllEnd`), every task returns (`Advances.returned`).
-/

namespace GoAtlas

variable {U : Type}

theorem CheckState.eq_ok_of_ofAnswer {answer : Except CheckFault Checked} {checked : Checked}
    (done : ofAnswer answer = .done checked) : answer = .ok checked := by
  unfold ofAnswer at done
  split at done <;> cases done
  rfl

/-- A check of files that ends is never kept as a failure with nothing resolved. -/
theorem Frontend.Thorough.ofAnswer_ne_failed {frontend : Frontend U} (h : frontend.Thorough)
    {package : String} {files : List (SourceFile U)} {imported? : String → Option Checked}
    (ne : files ≠ []) (ends : frontend.check package files imported? ≠ .error .unending)
    (message : String) :
    CheckState.ofAnswer (frontend.check package files imported?) ≠ .failed message := by
  cases answer : frontend.check package files imported? with
  | ok checked => exact nofun
  | error fault =>
    obtain rfl | ⟨words, checked, rfl⟩ := h.resolves package files imported? fault ne answer
    · exact absurd answer ends
    · exact nofun

namespace Session

variable {env : Environment U} {roots : Roots} {origin before session after : Session U}
  {package target location : String} {located : Located} {found : Table String}
variable {literal : String} {order : List String} {state : CheckState} {α : Type}
  {result : Except Failure α} {checked : Checked}

/-- The check of the package failed, and nothing was resolved. -/
def Fails (session : Session U) (package : String) : Prop :=
  ∃ message, session.checks.get? package = some (.failed message)

instance (session : Session U) (package : String) : Decidable (session.Fails package) :=
  match there : session.checks.get? package with
  | some (.failed message) => isTrue ⟨message, there⟩
  | some .inProgress | some (.done _) | some (.incomplete _ _) | none =>
    isFalse fun ⟨_, other⟩ => by
      rw [there] at other
      cases other

/-- No package fails that did not fail before. -/
def Spares (before after : Session U) : Prop :=
  ∀ package, after.Fails package → before.Fails package

theorem Fails.later (h : before.Fails package) (settles : Settles before after) :
    after.Fails package := by
  obtain ⟨message, there⟩ := h
  exact ⟨message, settles.states package _ there⟩

theorem Concluded.later (h : before.Concluded package) (settles : Settles before after) :
    after.Concluded package := by
  obtain ⟨state, there, ended⟩ := h
  exact ⟨state, settles.states package state there, ended⟩

theorem Fails.checked?_eq_none (h : session.Fails package) : session.checked? package = none := by
  obtain ⟨message, there⟩ := h
  rw [checked?, there]
  rfl

/-- A check with a result has resolved something, or failed. -/
theorem Concluded.resolved_or_fails (h : session.Concluded package) :
    (session.checked? package).isSome = true ∨ session.Fails package := by
  obtain ⟨state, there, ended⟩ := h
  cases state with
  | inProgress => cases ended
  | done checked | incomplete checked message =>
    refine .inl ?_
    rw [checked?, there]
    rfl
  | failed message => exact .inr ⟨message, there⟩

theorem exists_state_of_checked? (h : (session.checked? package).isSome = true) :
    ∃ state, session.checks.get? package = some state ∧ state.checked?.isSome = true := by
  cases there : session.checks.get? package with
  | none =>
    rw [checked?, there] at h
    cases h
  | some state =>
    rw [checked?, there] at h
    exact ⟨state, rfl, h⟩

/-- What is known of packages refers to no package whose check is not over. -/
def Apart (session : Session U) : Prop :=
  ∀ package checked, session.checked? package = some checked →
    ∀ other, ¬ session.Concluded other → Check.Foreign other checked

/-- The packages that were handed to the checker come after those they import. -/
structure Ranked (env : Environment U) (roots : Roots) (origin session : Session U) : Prop where
  sound : Sound env roots origin [] session
  traced : Traced env roots origin session
  accounted : session.Accounted
  /-- What is resolved was handed to the checker. -/
  handed : ∀ package, (session.checked? package).isSome = true → package ∈ session.checkOrder
  ordered : ∀ package ∈ session.checkOrder, ∀ target, Imports env roots origin package target →
    session.checkOrder.idxOf target < session.checkOrder.idxOf package ∨ session.Fails target
  /-- What a package without errors imports was resolved. -/
  given : ∀ package checked, session.checks.get? package = some (.done checked) →
    ∀ target, Imports env roots origin package target → (session.checked? target).isSome = true
  apart : session.Apart

theorem ranked_start (env : Environment U) (roots : Roots) (config : Config) :
    Ranked env roots (start config) (start config) where
  sound := sound_start env roots config
  traced := traced_start env roots config
  accounted := accounted_start config
  handed _ resolved := nomatch resolved
  ordered _ mem := nomatch mem
  given _ _ there := nomatch there
  apart _ _ known := nomatch known

/-! ## Changes of the checks -/

theorem idxOf_lt_of_mem (mem : target ∈ order) (new : package ∉ order) :
    (order ++ [package]).idxOf target < (order ++ [package]).idxOf package := by
  rw [List.idxOf_append_of_mem mem, List.idxOf_append_of_notMem new]
  exact Nat.lt_add_right _ (List.idxOf_lt_length_iff.2 mem)

theorem idxOf_append_lt {last : String} (mem : package ∈ order)
    (before : order.idxOf target < order.idxOf package) :
    (order ++ [last]).idxOf target < (order ++ [last]).idxOf package := by
  have mem' : target ∈ order :=
    List.idxOf_lt_length_iff.1 (before.trans (List.idxOf_lt_length_iff.2 mem))
  rw [List.idxOf_append_of_mem mem, List.idxOf_append_of_mem mem']
  exact before

section Changes

variable (unchecked : ¬ session.Concluded package)

include unchecked

/-- A result that is there stays where another check is given a state. -/
theorem get?_setCheck_of_over {state old : CheckState} (ended : old.isOver = true)
    (there : session.checks.get? target = some old) :
    (session.setCheck package state).checks.get? target = some old := by
  rw [setCheck, Table.get?_insert_of_ne]
  · exact there
  · rintro rfl
    exact unchecked ⟨old, there, ended⟩

theorem Fails.setCheck (h : session.Fails target) (state : CheckState) :
    (session.setCheck package state).Fails target := by
  obtain ⟨message, there⟩ := h
  exact ⟨message, get?_setCheck_of_over unchecked rfl there⟩

theorem Concluded.setCheck (h : session.Concluded target) (state : CheckState) :
    (session.setCheck package state).Concluded target := by
  obtain ⟨old, there, ended⟩ := h
  exact ⟨old, get?_setCheck_of_over unchecked ended there, ended⟩

theorem isSome_checked?_setCheck (h : (session.checked? target).isSome = true)
    (state : CheckState) :
    ((session.setCheck package state).checked? target).isSome = true := by
  obtain ⟨old, there, resolved⟩ := exists_state_of_checked? h
  have ended : old.isOver = true := by
    cases old with
    | inProgress => cases resolved
    | done checked | incomplete checked message | failed message => rfl
  rw [checked?, get?_setCheck_of_over unchecked ended there]
  exact resolved

theorem Apart.setCheck (h : session.Apart) (unresolved : state.checked? = none) :
    (session.setCheck package state).Apart := by
  intro other checked known target during
  rw [checked?_setCheck, unresolved] at known
  split at known
  · cases known
  · exact h other checked known target fun ended => during (ended.setCheck unchecked state)

/-- A check resolves types of its package, and of those that its imports refer to. -/
theorem Apart.check (h : session.Apart) (thorough : env.frontend.Thorough)
    (found : Table String) (call : Call) :
    ((session.record call).setCheck package (.ofAnswer (env.frontend.check package
      (session.sources.filesOf package) (session.imported? found)))).Apart := by
  intro other checked known target during
  have before : ¬ session.Concluded target := fun ended => during (ended.setCheck unchecked _)
  rw [checked?_setCheck] at known
  split at known
  · refine thorough.foreign package _ _ target ?_ (fun literal given imported => ?_) checked known
    · rintro rfl
      exact during ⟨_, Table.get?_insert_self .., CheckState.isOver_ofAnswer _⟩
    · obtain ⟨path, -, there⟩ := Option.bind_eq_some_iff.1 imported
      exact h path given there target before
  · exact h other checked known target before

end Changes

theorem Apart.learns (h : before.Apart) (learns : Learns before after) : after.Apart := by
  unfold Apart checked? Concluded
  rw [learns.checks]
  exact h

theorem Fails.of_setCheck (h : (session.setCheck package state).Fails target)
    (other : ∀ message, state ≠ .failed message) : session.Fails target := by
  obtain ⟨message, there⟩ := h
  rw [Session.setCheck, Table.get?_insert] at there
  split at there
  · exact absurd (Option.some.inj there) (other message)
  · exact ⟨message, there⟩

/-- A check may be started, and may fail, before it comes to the checker. -/
theorem Ranked.setCheck (h : Ranked env roots origin session)
    (has : session.sources.hasPackage package = true)
    (unchecked : ¬ session.Concluded package) (unresolved : state.checked? = none) :
    Ranked env roots origin (session.setCheck package state) where
  sound := h.sound.frame _ _
  traced := ⟨h.traced.tags, h.traced.located, h.traced.indexed⟩
  accounted := h.accounted.setCheck has unchecked state
  handed other resolved := by
    rw [checked?, Session.setCheck, Table.get?_insert] at resolved
    split at resolved
    · rw [Option.bind_some, unresolved] at resolved
      cases resolved
    · exact h.handed other resolved
  ordered other mem target imports := by
    rcases h.ordered other mem target imports with before | fails
    · exact .inl before
    · exact .inr (fails.setCheck unchecked state)
  given other checked done target imports := by
    rw [Session.setCheck, Table.get?_insert] at done
    split at done
    · cases done
      cases unresolved
    · exact isSome_checked?_setCheck unchecked (h.given other checked done target imports) state
  apart := h.apart.setCheck unchecked unresolved

/-- The files of a package are those that the front end reads. -/
theorem Sound.gives (h : Sound env roots origin [] session) {file : SourceFile U}
    (mem : file ∈ session.sources.filesOf package) : env.frontend.Gives file := by
  obtain ⟨source, read⟩ := h.files package (List.ne_nil_of_mem mem)
  rw [read.files] at mem
  obtain ⟨name, -, found⟩ := Environment.name_of_mem_readable mem
  exact Environment.gives_of_file? found

/-- What a package without errors imports was given to its check. -/
theorem Ranked.checked?_of_ok (h : Ranked env roots origin session)
    (thorough : env.frontend.Thorough)
    (answer : env.frontend.check package (session.sources.filesOf package)
      (session.imported? found) = .ok checked) (mem : literal ∈ session.sources.importsOf package)
    (leads : found.get? literal = some target) : (session.checked? target).isSome = true := by
  obtain ⟨file, mem', names⟩ := (h.traced.indexed package literal).1 mem
  have given := thorough.imports package _ _ checked (fun _ => h.sound.gives) answer file mem'
    literal names
  rw [imported?, leads] at given
  exact given

/-- A package is handed to the checker once all that it imports has a result. -/
theorem Ranked.check (h : Ranked env roots origin session) (thorough : env.frontend.Thorough)
    (during : session.checks.get? package = some .inProgress)
    (supplied : ∀ target, Imports env roots origin package target →
      ∃ literal ∈ session.sources.importsOf package,
        found.get? literal = some target ∧ session.Concluded target)
    (files : List FilePath) (imports : List (String × Option String)) :
    Ranked env roots origin ((session.record (.check package files imports)).setCheck package
      (.ofAnswer (env.frontend.check package (session.sources.filesOf package)
        (session.imported? found)))) := by
  have unchecked := not_concluded_of_inProgress during
  have has := h.accounted.files package _ during
  have new : package ∉ session.checkOrder := fun mem => unchecked (h.accounted.ended _ mem)
  have apart := h.apart.check unchecked thorough found (.check package files imports)
  generalize answers : env.frontend.check package (session.sources.filesOf package)
    (session.imported? found) = answer at apart
  refine ⟨h.sound.frame _ _, ⟨h.traced.tags, h.traced.located, h.traced.indexed⟩,
    h.accounted.check has unchecked (CheckState.isOver_ofAnswer answer) files imports, ?_, ?_, ?_,
    apart⟩
  · intro other known
    rw [checkOrder_check]
    by_cases same : other = package
    · exact List.mem_append_right _ (List.mem_singleton.2 same)
    · rw [checked?, Session.setCheck, Table.get?_insert_of_ne _ _ same] at known
      exact List.mem_append_left _ (h.handed other known)
  · intro other mem target edge
    have stays (failed : session.Fails target) :
        ((session.record (.check package files imports)).setCheck package
          (.ofAnswer answer)).Fails target :=
      failed.setCheck unchecked _
    rw [checkOrder_check] at mem ⊢
    rcases List.mem_append.1 mem with mem | mem
    · exact (h.ordered other mem target edge).imp (idxOf_append_lt mem) stays
    · obtain rfl := List.mem_singleton.1 mem
      obtain ⟨literal, -, -, concluded⟩ := supplied target edge
      exact concluded.resolved_or_fails.imp
        (fun known => idxOf_lt_of_mem (h.handed target known) new) stays
  · intro other checked done target edge
    have resolved : (session.checked? target).isSome = true := by
      rw [Session.setCheck, Table.get?_insert] at done
      split at done
      · next same =>
        obtain ⟨literal, mem, leads, -⟩ := supplied target (same ▸ edge)
        have ok := CheckState.eq_ok_of_ofAnswer (Option.some.inj done)
        exact h.checked?_of_ok thorough (answers.trans ok) mem leads
      · exact h.given other checked done target edge
    exact isSome_checked?_setCheck unchecked resolved _

theorem Ranked.request (h : Ranked env roots origin session)
    (done : session.checks.get? package = some (.done checked)) :
    Ranked env roots origin (session.request package) where
  sound := h.sound.request ((h.accounted.dense package).1 (h.accounted.files package _ done))
  traced := ⟨h.traced.tags, h.traced.located, h.traced.indexed⟩
  accounted := h.accounted.request done
  handed := h.handed
  ordered := h.ordered
  given := h.given
  apart := h.apart

theorem Ranked.learns (h : Ranked env roots origin before) (learns : Learns before after)
    (sound : Sound env roots origin [] after) (traced : Traced env roots origin after) :
    Ranked env roots origin after := by
  refine ⟨sound, traced, h.accounted.learns learns, ?_, ?_, ?_, h.apart.learns learns⟩
  · unfold checked?
    rw [learns.order, learns.checks]
    exact h.handed
  · unfold Fails
    rw [learns.order, learns.checks]
    exact h.ordered
  · unfold checked?
    rw [learns.checks]
    exact h.given

/-! ## What comes of a task -/

/-- The result is a failure that is not passed over. -/
def isFatal {α : Type} : Except Failure α → Bool
  | .ok _ => false
  | .error failure => !failure.isRecoverable

/-- A package whose check is not over is referred to by nothing that it imports. -/
theorem Apart.returned_runCheck (h : session.Apart) (unchecked : ¬ session.Concluded package)
    (ends : env.frontend.Ends package (session.sources.filesOf package)) :
    Returned (session.perform (runCheck env package found)).1 := by
  have fails := (@perform_runCheck U env session package found).2.2
  generalize session.perform (runCheck env package found) = outcome at fails
  obtain ⟨result, last⟩ := outcome
  cases result with
  | ok value => trivial
  | error failure =>
    cases failure with
    | unending =>
      obtain ⟨-, answer⟩ := (fails _ rfl).resolve_right fun passed => by cases passed.1
      refine ends _ (fun literal given imported => ?_) answer
      obtain ⟨path, -, there⟩ := Option.bind_eq_some_iff.1 imported
      exact h path given there package unchecked
    | _ => trivial

/-- The check of the package ends. -/
def CheckEnds (env : Environment U) (origin : Session U) (located : Located) : Prop :=
  env.frontend.Ends located.package
    (env.readable located.dir (located.selection origin.config.includeTestFiles))

/-- So do the checks of all packages that the roots lead to. -/
def AllEnd (env : Environment U) (roots : Roots) (origin : Session U) : Prop :=
  ∀ located, roots.Leads env.tree origin.tags located → CheckEnds env origin located

/-- The order of checks holds after a task as before, and unless the task failed fatally
nothing fails that did not fail before. -/
structure Advances {α : Type} (env : Environment U) (roots : Roots) (origin session : Session U)
    (outcome : Except Failure α × Session U) : Prop where
  ranked : Ranked env roots origin outcome.2
  settles : Settles session outcome.2
  spares : isFatal outcome.1 = false → Spares session outcome.2
  returned : AllEnd env roots origin → Returned outcome.1

theorem Advances.refl (h : Ranked env roots origin session) {result : Except Failure α}
    (returned : Returned result) : Advances env roots origin session (result, session) :=
  ⟨h, .refl session, fun _ _ => id, fun _ => returned⟩

theorem Advances.trans {β : Type} {outcome : Except Failure β × Session U}
    (h : Advances env roots origin session (result, after)) (passed : isFatal result = false)
    (h' : Advances env roots origin after outcome) : Advances env roots origin session outcome :=
  ⟨h'.ranked, h.settles.trans h'.settles,
    fun passed' package fails => h.spares passed package (h'.spares passed' package fails),
    h'.returned⟩

/-- A task may give another result for what it did, if that is no less fatal. -/
theorem Advances.answer {β : Type} {other : Except Failure β}
    (h : Advances env roots origin session (result, after))
    (passed : isFatal other = false → isFatal result = false)
    (returned : Returned result → Returned other) :
    Advances env roots origin session (other, after) :=
  ⟨h.ranked, h.settles, fun passed' => h.spares (passed passed'), returned ∘ h.returned⟩

/-- What comes of loading the package at a location: a package with files, and the
one that the location leads to unless the failure is fatal. -/
structure Loads (env : Environment U) (roots : Roots) (origin session : Session U)
    (location : String) (outcome : Except Failure String × Session U) : Prop
    extends Advances env roots origin session outcome where
  files : ∀ package, outcome.1 = .ok package → outcome.2.sources.hasPackage package = true
  leads : ∀ target located, Resolves env roots origin location target →
    Loadable env roots origin target located → isFatal outcome.1 = false → outcome.1 = .ok target

/-- What comes of importing the package at a location: one that fails at all fails
fatally, and otherwise the package of the location is found, with a result. -/
structure Imported (env : Environment U) (roots : Roots) (origin session : Session U)
    (location : String) (outcome : Except Failure (Option String) × Session U) : Prop
    extends Advances env roots origin session outcome where
  fatal : ∀ failure, outcome.1 = .error failure → failure.isRecoverable = false
  concluded : ∀ package, outcome.1 = .ok (some package) → outcome.2.Concluded package
  leads : ∀ found target located, outcome.1 = .ok found →
    Resolves env roots origin location target → Loadable env roots origin target located →
      found = some target

/-- The literal was found to lead to the package, which has a result. -/
def Finds (session : Session U) (found : Table String) (literal target : String) : Prop :=
  found.get? literal = some target ∧ session.Concluded target

/-- What comes of importing literals for a package. -/
structure ImportedAll (env : Environment U) (roots : Roots) (origin session : Session U)
    (package : String) (literals : List String) (found : Table String)
    (outcome : Except Failure (Table String) × Session U) : Prop
    extends Advances env roots origin session outcome where
  fatal : ∀ failure, outcome.1 = .error failure → failure.isRecoverable = false
  finds : ∀ result literal target located, outcome.1 = .ok result →
    Resolves env roots origin literal target → Loadable env roots origin target located →
      (literal ∈ literals ∧ literal ≠ package) ∨ session.Finds found literal target →
        outcome.2.Finds result literal target

/-- What comes of checking a package: unless it fails fatally, it has a result. -/
structure Examined (env : Environment U) (roots : Roots) (origin session : Session U)
    (package : String) (outcome : Except Failure Unit × Session U) : Prop
    extends Advances env roots origin session outcome where
  concluded : isFatal outcome.1 = false → session.sources.hasPackage package = true →
    outcome.2.Concluded package

/-- What comes of adding the package at a location: where it succeeds, the package has
no errors. -/
structure Added (env : Environment U) (roots : Roots) (origin session : Session U)
    (location : String) (outcome : Except Failure Unit × Session U) : Prop
    extends Advances env roots origin session outcome where
  done : ∀ target located, outcome.1 = .ok () → Resolves env roots origin location target →
    Loadable env roots origin target located →
      ∃ checked, outcome.2.checks.get? target = some (.done checked)

/-! ## Loading and importing -/

theorem loads_loaded (search : env.locator = .search roots) (tidy : env.tree.WellFormed)
    (h : Ranked env roots origin session) (location : String) :
    Loads env roots origin session location (session.perform (loaded env location)) := by
  obtain ⟨sound, files⟩ := sound_loaded search tidy h.sound location
  have learns : Learns session (session.perform (loaded env location)).2 :=
    learns_loaded session location
  have ranked := h.learns learns sound
    ((steady_traced search).keeps_loaded location session h.traced)
  refine ⟨⟨ranked, learns.settles, fun _ package fails => ?_,
    fun _ => returns_loaded location session⟩, fun package ok => ?_, ?_⟩
  · unfold Fails at fails ⊢
    rwa [learns.checks] at fails
  · exact (ranked.accounted.dense package).2 (files package ok)
  · intro target located resolves loadable passed
    rcases resolves.loaded_cases loadable search h.sound h.traced with ok | ⟨failure, fails, fatal⟩
    · exact ok
    · rw [fails, isFatal, fatal] at passed
      cases passed

variable {importOne : String → Task U (Option String)}

/-- The packages found, with what one literal more was found to lead to. -/
def noted (found : Table String) (literal : String) : Option String → Table String
  | some path => found.insert literal path
  | none => found

theorem perform_importAll_cons (apart : literal ≠ package) (rest : List String)
    (found : Table String) :
    session.perform (importAll importOne package (literal :: rest) found) =
      match session.perform (importOne literal) with
      | (.ok path, after) =>
        after.perform (importAll importOne package rest (noted found literal path))
      | (.error failure, after) => (.error failure, after) := by
  rw [importAll, if_neg apart, perform_bind]
  generalize session.perform (importOne literal) = outcome
  obtain ⟨result, after⟩ := outcome
  cases result with
  | error failure => rfl
  | ok path => cases path <;> rfl

theorem Imported.finds {other : String} {path : Option String}
    (h : Imported env roots origin session literal (.ok path, after))
    (resolves : Resolves env roots origin other target)
    (loadable : Loadable env roots origin target located)
    (asked : other = literal ∨ session.Finds found other target) :
    after.Finds (noted found literal path) other target := by
  by_cases here : other = literal
  · have leads : path = some target := h.leads path target located rfl (here ▸ resolves) loadable
    subst leads
    refine ⟨?_, h.concluded target rfl⟩
    rw [here]
    exact Table.get?_insert_self ..
  · obtain ⟨there, concluded⟩ := asked.resolve_left here
    refine ⟨?_, concluded.later h.settles⟩
    cases path with
    | none => exact there
    | some path => exact (Table.get?_insert_of_ne _ _ here).trans there

section Checks

variable (one : ∀ session location, Ranked env roots origin session →
    Imported env roots origin session location (session.perform (importOne location)))

include one in
theorem importedAll_importAll (package : String) (literals : List String)
    (h : Ranked env roots origin session) (found : Table String) :
    ImportedAll env roots origin session package literals found
      (session.perform (importAll importOne package literals found)) := by
  induction literals generalizing session found with
  | nil =>
    refine ⟨.refl h trivial, fun _ failed => (by cases failed), ?_⟩
    rintro result literal target located ⟨⟩ - - (⟨mem, -⟩ | finds)
    · cases mem
    · exact finds
  | cons literal rest ih =>
    by_cases self : literal = package
    · rw [importAll, if_pos self]
      have others := ih h found
      refine ⟨others.toAdvances, others.fatal, ?_⟩
      intro result other target located ok resolves loadable asked
      refine others.finds result other target located ok resolves loadable ?_
      refine asked.imp_left fun mem => ⟨?_, mem.2⟩
      exact (List.mem_cons.1 mem.1).resolve_left fun eq => mem.2 (eq.trans self)
    · have first := one session literal h
      rw [perform_importAll_cons self]
      generalize session.perform (importOne literal) = outcome at first
      obtain ⟨result, after⟩ := outcome
      cases result with
      | error failure =>
        refine ⟨first.answer id id, ?_, fun _ _ _ _ ok => by cases ok⟩
        rintro _ ⟨⟩
        exact first.fatal failure rfl
      | ok path =>
        have others := ih first.ranked (noted found literal path)
        refine ⟨first.trans rfl others.toAdvances, others.fatal, ?_⟩
        intro result other target located ok resolves loadable asked
        refine others.finds result other target located ok resolves loadable ?_
        -- the literal itself was found just now, what was found before still is
        rcases asked with ⟨mem, apart⟩ | finds
        · rcases List.mem_cons.1 mem with here | mem
          · exact .inr (first.finds resolves loadable (.inl here))
          · exact .inl ⟨mem, apart⟩
        · exact .inr (first.finds resolves loadable (.inr finds))

/-- Once its imports are imported, all that a package imports is found. -/
theorem ImportedAll.supplied
    (imported : ImportedAll env roots origin before package (session.sources.importsOf package) ∅
      (.ok found, after)) (h : Ranked env roots origin session)
    (has : session.sources.hasPackage package = true)
    (has' : after.sources.hasPackage package = true)
    (imports : Imports env roots origin package target) :
    ∃ literal ∈ after.sources.importsOf package, after.Finds found literal target := by
  obtain ⟨literal, located, apart, resolves, loadable, mem⟩ := imports.exists_literal
  refine ⟨literal, ?_, ?_⟩
  · exact mem after imported.ranked.sound imported.ranked.traced
      ((imported.ranked.accounted.dense package).1 has')
  · exact imported.finds found literal target located rfl resolves loadable
      (.inl ⟨mem session h.sound h.traced ((h.accounted.dense package).1 has), apart⟩)

/-- A package whose imports were imported is handed to the checker, and has a result. -/
theorem ImportedAll.examined (thorough : env.frontend.Thorough)
    (h : Ranked env roots origin session) (new : session.checks.get? package = none)
    (has : session.sources.hasPackage package = true)
    (imported : ImportedAll env roots origin (session.setCheck package .inProgress) package
      (session.sources.importsOf package) ∅ (.ok found, after)) :
    Examined env roots origin session package (after.perform (runCheck env package found)) := by
  have during : after.checks.get? package = some .inProgress :=
    imported.settles.states package .inProgress (Table.get?_insert_self ..)
  have has' := imported.ranked.accounted.files package _ during
  have unchecked := not_concluded_of_inProgress during
  have some_file := (imported.ranked.accounted.dense package).1 has'
  have ends := (@perform_runCheck U env after package found).1
  refine ⟨⟨?_, ?_, fun passed other fails => ?_, fun allEnd => ?_⟩, fun _ _ => ?_⟩
  · rw [ends]
    exact imported.ranked.check thorough during (fun _ => imported.supplied h has has') _ _
  · rw [ends]
    exact .conclude new (imported.settles.record _) (CheckState.isOver_ofAnswer _)
  · rw [ends] at fails
    have fails : after.Fails other := by
      refine fails.of_setCheck (thorough.ofAnswer_ne_failed some_file fun unending => ?_)
      rw [runCheck_unending unending] at passed
      cases passed
    exact (imported.spares rfl other fails).of_setCheck nofun
  · obtain ⟨located, read⟩ := imported.ranked.sound.files package some_file
    have ends := allEnd located read.leads
    rw [CheckEnds, read.canonical, ← read.files] at ends
    exact imported.ranked.apart.returned_runCheck unchecked ends
  · rw [ends]
    exact ⟨_, Table.get?_insert_self .., CheckState.isOver_ofAnswer _⟩

/-- A package fails where its imports fail fatally. -/
theorem ImportedAll.failed {failure : Failure} {literals : List String}
    (new : session.checks.get? package = none)
    (imported : ImportedAll env roots origin (session.setCheck package .inProgress) package
      literals ∅ (.error failure, after)) :
    Examined env roots origin session package
      (.error failure, after.setCheck package (.failed failure.message)) := by
  have during : after.checks.get? package = some .inProgress :=
    imported.settles.states package .inProgress (Table.get?_insert_self ..)
  have fatal : isFatal (.error failure : Except Failure Unit) = true := by
    rw [isFatal, imported.fatal failure rfl]
    rfl
  refine ⟨⟨?_, .conclude new imported.settles rfl, fun passed => ?_, imported.returned⟩,
    fun passed => ?_⟩
  · exact imported.ranked.setCheck (imported.ranked.accounted.files package _ during)
      (not_concluded_of_inProgress during) rfl
  · cases fatal.symm.trans passed
  · cases fatal.symm.trans passed

include one in
theorem examined_check (thorough : env.frontend.Thorough) (h : Ranked env roots origin session)
    (package : String) :
    Examined env roots origin session package (session.perform (check env importOne package)) := by
  rw [perform_check]
  cases there : session.checks.get? package with
  | some state =>
    cases state with
    | inProgress => exact ⟨.refl h trivial, nofun⟩
    | done checked | incomplete checked message | failed message =>
      exact ⟨.refl h trivial, fun _ _ => ⟨_, there, rfl⟩⟩
  | none =>
    dsimp only
    split
    · next has =>
      have started : Ranked env roots origin (session.setCheck package .inProgress) :=
        h.setCheck has (not_concluded_of_none there) rfl
      have imported := importedAll_importAll one package (session.sources.importsOf package)
        started ∅
      generalize (session.setCheck package .inProgress).perform
        (importAll importOne package (session.sources.importsOf package) ∅) = outcome at imported
      obtain ⟨result, after⟩ := outcome
      cases result with
      | error failure => exact imported.failed there
      | ok found => exact imported.examined thorough h there has
    · next without => exact ⟨.refl h trivial, fun _ has => absurd has without⟩

end Checks

theorem perform_importAt_succ (depth : Nat) (location : String) :
    session.perform (importAt env (depth + 1) location) =
      match session.perform (loaded env location) with
      | (.error failure, after) =>
        if failure.isRecoverable then (.ok none, after) else (.error failure, after)
      | (.ok package, after) =>
        match after.perform (check env (importAt env depth) package) with
        | (.ok _, last) => (.ok (some package), last)
        | (.error failure, last) =>
          if failure.isRecoverable then (.ok (some package), last) else (.error failure, last) := by
  rw [importAt, perform_bind, perform_tryCatch, perform_map]
  generalize session.perform (loaded env location) = outcome
  obtain ⟨result, after⟩ := outcome
  cases result with
  | error failure =>
    dsimp only
    rw [perform_passOver]
    cases failure.isRecoverable <;> rfl
  | ok package =>
    dsimp only
    rw [perform_bind, perform_tryCatch]
    generalize after.perform (check env (importAt env depth) package) = outcome
    obtain ⟨result, last⟩ := outcome
    cases result with
    | ok value => rfl
    | error failure =>
      dsimp only
      rw [perform_passOver]
      cases failure.isRecoverable <;> rfl

/-- A failure that is not passed over is fatal. -/
theorem Advances.imported_error {failure : Failure}
    (h : Advances env roots origin session ((.error failure : Except Failure α), after))
    (fatal : ¬ failure.isRecoverable = true) :
    Imported env roots origin session location (.error failure, after) := by
  refine ⟨h.answer id id, ?_, nofun, nofun⟩
  rintro other ⟨⟩
  exact eq_false_of_ne_true fatal

section Tasks

variable (search : env.locator = .search roots) (tidy : env.tree.WellFormed)
  (thorough : env.frontend.Thorough)

include search tidy thorough in
theorem imported_importAt (depth : Nat) (session : Session U) (location : String)
    (h : Ranked env roots origin session) :
    Imported env roots origin session location (session.perform (importAt env depth location)) := by
  induction depth generalizing session location with
  | zero =>
    have stuck : Advances env roots origin session
        ((.error (.circularDependency location) : Except Failure (Option String)), session) :=
      .refl h trivial
    exact stuck.imported_error nofun
  | succ depth ih =>
    have loads := loads_loaded search tidy h location
    rw [perform_importAt_succ]
    generalize session.perform (loaded env location) = outcome at loads
    obtain ⟨result, after⟩ := outcome
    cases result with
    | error failure =>
      dsimp only
      by_cases recoverable : failure.isRecoverable = true
      · have passed : isFatal (.error failure : Except Failure String) = false := by
          rw [isFatal, recoverable]
          rfl
        rw [if_pos recoverable]
        refine ⟨loads.answer (fun _ => passed) fun _ => trivial, nofun, nofun, ?_⟩
        rintro found target located ⟨⟩ resolves loadable
        -- a location that leads to a package is not passed over
        cases loads.leads target located resolves loadable passed
      · rw [if_neg recoverable]
        exact loads.imported_error recoverable
    | ok package =>
      have checked := examined_check ih thorough loads.ranked package
      dsimp only
      generalize after.perform (check env (importAt env depth) package) = outcome at checked
      obtain ⟨result, last⟩ := outcome
      have advances := loads.trans rfl checked.toAdvances
      have passed (passed : isFatal result = false) :
          Imported env roots origin session location (.ok (some package), last) := by
        refine ⟨advances.answer (fun _ => passed) fun _ => trivial, nofun, ?_, ?_⟩
        · rintro other ⟨⟩
          exact checked.concluded passed (loads.files package rfl)
        · rintro found target located ⟨⟩ resolves loadable
          rw [Except.ok.inj (loads.leads target located resolves loadable rfl)]
      cases result with
      | ok value => exact passed rfl
      | error failure =>
        dsimp only
        by_cases recoverable : failure.isRecoverable = true
        · rw [if_pos recoverable]
          refine passed ?_
          rw [isFatal, recoverable]
          rfl
        · rw [if_neg recoverable]
          exact advances.imported_error recoverable

include search tidy thorough in
theorem added_importRequested (depth : Nat) (location : String)
    (h : Ranked env roots origin session) :
    Added env roots origin session location
      (session.perform (importRequested env depth location)) := by
  have loads := loads_loaded search tidy h location
  rw [importRequested, perform_bind]
  generalize session.perform (loaded env location) = outcome at loads
  obtain ⟨result, after⟩ := outcome
  cases result with
  | error failure => exact ⟨loads.answer id id, fun _ _ ok => by cases ok⟩
  | ok package =>
    have checked := examined_check (imported_importAt search tidy thorough depth) thorough
      loads.ranked package
    have done := @done_of_check U env after package (importAt env depth)
    dsimp only
    rw [perform_bind]
    generalize after.perform (check env (importAt env depth) package) = outcome at checked done
    obtain ⟨result, last⟩ := outcome
    have advances := loads.trans rfl checked.toAdvances
    cases result with
    | error failure => exact ⟨advances.answer id id, fun _ _ ok => by cases ok⟩
    | ok value =>
      obtain ⟨resolved, there⟩ := done rfl
      have settles : Settles session (last.request package) :=
        advances.settles.trans ⟨fun _ _ => id, fun _ _ => .inl⟩
      refine ⟨⟨checked.ranked.request there, settles, fun _ => advances.spares rfl,
        fun _ => trivial⟩, ?_⟩
      intro target located _ resolves loadable
      rw [← Except.ok.inj (loads.leads target located resolves loadable rfl)]
      exact ⟨resolved, there⟩

include search tidy thorough in
theorem ranked_task (command : Command) : Keeps (Ranked env roots origin) (command.task env) := by
  apply keeps_command
  · intro depth location session h
    exact (added_importRequested search tidy thorough depth location h).ranked
  · intro depth package session h
    exact (examined_check (imported_importAt search tidy thorough depth) thorough h package).ranked

end Tasks

end Session

end GoAtlas
