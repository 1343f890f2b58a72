import GoAtlas.Proofs.Session.Lasting
import GoAtlas.Proofs.Session.Loaded

/-!
# The directory of a package

Several locations can lead to one package: the copy of it in a vendor directory goes under
the same path. The first directory that a package is found in is kept, and a location that
is looked for later has to lead to the same one (`directory_of_added`).

This is a law of locations that are looked for. A location that was located before is
taken as it was then, and where the package has files its directory is not compared again.
So the copy in another directory is refused once, and added when it is asked for a second
time; and a location is never looked for where it is the path of a package that was added
from elsewhere (`added_from_other_directory`).
-/

namespace GoAtlas

variable {U : Type}

namespace Session

variable {env : Environment U} {session : Session U} {location : String} {located : Located}

/-- The package is held to the directory it is found in. -/
def Holds (session : Session U) (located : Located) : Prop :=
  ∃ dir, session.directories.get? located.package = some dir ∧ dir.same located.dir = true

/-! ## Holding a package to its directory -/

theorem perform_settle (session : Session U) (package : String) (dir : FilePath) :
    session.perform (settle package dir) =
      match session.directories.get? package with
      | some previous =>
        if previous.same dir then (.ok (), session)
        else (.error (.duplicateResolution package dir previous), session)
      | none =>
        (.ok (), { session with directories := session.directories.insert package dir }) := by
  rw [settle, perform_get_bind]
  cases session.directories.get? package with
  | none => rfl
  | some previous =>
    dsimp only
    split <;> rfl

/-- A package that is not refused is held to its directory from then on. -/
theorem holds_of_settle
    (ok : (session.perform (settle located.package located.dir)).1 = .ok ()) :
    (session.perform (settle located.package located.dir)).2.Holds located := by
  rw [perform_settle] at ok ⊢
  cases there : session.directories.get? located.package with
  | none => exact ⟨located.dir, Table.get?_insert_self .., beq_self_eq_true _⟩
  | some previous =>
    rw [there] at ok
    dsimp only at ok ⊢
    by_cases same : previous.same located.dir = true
    · rw [if_pos same]
      exact ⟨previous, there, same⟩
    · rw [if_neg same] at ok
      cases ok

/-- The directory of a package is never changed. -/
theorem lasting_directory (env : Environment U) (package : String) (dir : FilePath) :
    Lasting env fun session => session.directories.get? package = some dir where
  remember _ _ _ h _ := h
  settle session other _ h new := by
    refine (Table.get?_insert_of_ne _ _ ?_).trans h
    rintro rfl
    rw [h] at new
    cases new
  record _ _ h := h
  addFile _ _ _ h _ := h
  undecided _ _ _ h _ := h
  conclude _ _ _ _ h := h
  request _ _ h := h
  addTags _ _ h := h

theorem lasting_holds (env : Environment U) (located : Located) :
    Lasting env fun session => session.Holds located where
  remember _ _ _ h _ := h
  settle session package dir h new := by
    obtain ⟨held, there, same⟩ := h
    exact ⟨held, (lasting_directory env _ held).settle session package dir there new, same⟩
  record _ _ h := h
  addFile _ _ _ h _ := h
  undecided _ _ _ h _ := h
  conclude _ _ _ _ h := h
  request _ _ h := h
  addTags _ _ h := h

/-! ## Adding packages -/

section

variable (new : session.located.get? location = none)

include new

/-- A location that was not located before is looked for. -/
theorem perform_locate_new (found : env.Finds session.tags location located) :
    session.perform (locate env location) = (.ok located, session.remember location located) := by
  rw [locate, perform_get_bind]
  rw [new]
  rcases found with found | found
  · rw [found]
    rfl
  · rw [found]
    rfl

/-- A location that was not located before is loaded. -/
theorem perform_loaded_new :
    session.perform (loaded env location) = session.perform (load env location) := by
  obtain same | ⟨located, there, -⟩ := perform_loaded env session location
  · exact same
  · cases new.symm.trans there

/-- A package that is held to another directory is refused. -/
theorem load_refused (found : env.Finds session.tags location located) {held : FilePath}
    (there : session.directories.get? located.package = some held)
    (differs : held.same located.dir = false) :
    session.perform (load env location) =
      (.error (.duplicateResolution located.package located.dir held),
        session.remember location located) := by
  have recorded : (session.remember location located).directories.get?
      located.package = some held := there
  rw [load, perform_bind, perform_locate_new new found]
  dsimp only
  rw [perform_bind, perform_settle, recorded]
  dsimp only
  rw [if_neg (ne_true_of_eq_false differs)]

/-- A package that is loaded is held to its directory. -/
theorem holds_of_load (found : env.Finds session.tags location located) {package : String}
    (ok : (session.perform (load env location)).1 = .ok package) :
    (session.perform (load env location)).2.Holds located := by
  rw [load, perform_bind, perform_locate_new new found] at ok ⊢
  dsimp only at ok ⊢
  rw [perform_bind] at ok ⊢
  have holds := @holds_of_settle U (session.remember location located) located
  generalize (session.remember location located).perform
    (settle located.package located.dir) = outcome at ok holds
  obtain ⟨result, settled⟩ := outcome
  cases result with
  | error failure => cases ok
  | ok value =>
    exact (lasting_holds env located).keeps_loadFiles location _ located settled (holds rfl)

end

theorem perform_add (session : Session U) (location : String) :
    session.perform (add env location) =
      match session.perform (loaded env location) with
      | (.ok package, after) => after.perform (do
          check env (importAt env (importDepth env session)) package
          modify fun session => session.request package)
      | (.error failure, after) => (.error failure, after) := by
  rw [add, perform_get_bind]
  rw [importRequested, perform_bind]
  generalize session.perform (loaded env location) = outcome
  obtain ⟨result, after⟩ := outcome
  cases result <;> rfl

/-- In any session, whatever was asked of it before: if a package is added by a location
that was not located before, the directory that is recorded for it is the one the location
leads to. A location that was located before may be added where the two agree already. And
a location that leads to another directory is refused when it is looked for. -/
theorem directory_of_added (found : env.Finds session.tags location located)
    (looked : session.located.get? location = none ∨ session.Holds located) :
    ((session.perform (add env location)).1 = .ok () →
      (session.perform (add env location)).2.Holds located) ∧
    ∀ held, session.located.get? location = none →
      session.directories.get? located.package = some held →
      held.same located.dir = false →
      (session.perform (add env location)).1 =
        .error (.duplicateResolution located.package located.dir held) := by
  constructor
  · intro ok
    rcases looked with new | holds
    · have loaded := @holds_of_load U env session location located new found
      rw [perform_add, perform_loaded_new new] at ok ⊢
      generalize session.perform (load env location) = outcome at ok loaded
      obtain ⟨result, after⟩ := outcome
      cases result with
      | error failure => cases ok
      | ok package =>
        exact (lasting_holds env located).keeps_checkRequested _ package after (loaded rfl)
    · exact (lasting_holds env located).keeps_task (.add location) session holds
  · intro held new there differs
    rw [perform_add, perform_loaded_new new, load_refused new found there differs]

/-! ## A package with a copy -/

/-- A package, and a copy of it in a vendor directory. -/
def vendoredTree : FileTree :=
  (({} : FileTree).put ⟨"/lib/x/x.go"⟩ (.text "package x\n\ntype X int\n")).put
    ⟨"/app/vendor/lib/x/x.go"⟩ (.text "package x\n\ntype X int\n")

def vendoredSource : Environment SourceTree :=
  topSource vendoredTree

/-- The package in the directory that an import path names. -/
def vendoredPackage (importPath : String) : Located :=
  { importPath, dir := ⟨"/" ++ importPath⟩, files := ["x.go"], testFiles := [] }

theorem finds_vendoredPackage : ∀ location ∈ ["lib/x", "app/vendor/lib/x"],
    vendoredSource.locator.locate vendoredSource.tree (start {} : Session SourceTree).tags
      location = .ok (vendoredPackage location) := by
  decide +kernel

theorem canonical_vendoredPackage : ∀ location ∈ ["lib/x", "app/vendor/lib/x"],
    (vendoredPackage location).package = "lib/x" := by
  decide +kernel

/-- The package is held to no other directory than the one that is recorded. -/
theorem not_holds_vendoredPackage {session : Session SourceTree} {location other : String}
    (mem : location ∈ ["lib/x", "app/vendor/lib/x"])
    (held : session.directories.get? "lib/x" = some (vendoredPackage other).dir)
    (differs : (vendoredPackage other).dir.same (vendoredPackage location).dir = false) :
    ¬ session.Holds (vendoredPackage location) := by
  rintro ⟨dir, there, same⟩
  rw [canonical_vendoredPackage location mem, held] at there
  cases there
  rw [differs] at same
  cases same

/-- The session after some locations were added, whatever came of it. -/
def vendoredSession (locations : List String) : Session SourceTree :=
  (start {}).serve vendoredSource (locations.map fun location => .command (.add location))

/-- The package is added, and its copy is refused after that. -/
theorem directory_of_added_vendored :
    ((vendoredSession []).perform (add vendoredSource "lib/x")).2.Holds (vendoredPackage "lib/x") ∧
      ((vendoredSession ["lib/x"]).perform (add vendoredSource "app/vendor/lib/x")).1 =
        .error (.duplicateResolution "lib/x" ⟨"/app/vendor/lib/x"⟩ ⟨"/lib/x"⟩) := by
  have ok : ((vendoredSession []).perform (add vendoredSource "lib/x")).1 = .ok () := by
    decide +kernel
  have new : (vendoredSession ["lib/x"]).located.get? "app/vendor/lib/x" = none := by
    decide +kernel
  have held : (vendoredSession ["lib/x"]).directories.get? "lib/x" = some ⟨"/lib/x"⟩ := by
    decide +kernel
  have tags : (vendoredSession ["lib/x"]).tags = (start {} : Session SourceTree).tags := by
    decide +kernel
  have first := finds_vendoredPackage "lib/x" (by decide)
  have second := finds_vendoredPackage "app/vendor/lib/x" (by decide)
  have package := canonical_vendoredPackage "app/vendor/lib/x" (by decide)
  refine ⟨(directory_of_added (.inl first) (.inl rfl)).1 ok, ?_⟩
  rw [← tags] at second
  have refused := (directory_of_added (.inl second) (.inl new)).2 ⟨"/lib/x"⟩ new
  rw [package] at refused
  exact refused held (by decide +kernel)

/-- The copy that was refused is added when it is asked for again; and where the copy was
added the package is, although it is in another directory. Each time the directory that is
recorded is not the one the location leads to. -/
theorem added_from_other_directory :
    ((vendoredSession ["lib/x", "app/vendor/lib/x"]).perform
        (add vendoredSource "app/vendor/lib/x")).1 = .ok () ∧
      ¬ ((vendoredSession ["lib/x", "app/vendor/lib/x"]).perform
        (add vendoredSource "app/vendor/lib/x")).2.Holds (vendoredPackage "app/vendor/lib/x") ∧
      ((vendoredSession ["app/vendor/lib/x"]).perform (add vendoredSource "lib/x")).1 = .ok () ∧
      ¬ ((vendoredSession ["app/vendor/lib/x"]).perform (add vendoredSource "lib/x")).2.Holds
        (vendoredPackage "lib/x") := by
  have held : ((vendoredSession ["lib/x", "app/vendor/lib/x"]).perform
      (add vendoredSource "app/vendor/lib/x")).2.directories.get? "lib/x" =
        some (vendoredPackage "lib/x").dir := by decide +kernel
  have copied : ((vendoredSession ["app/vendor/lib/x"]).perform
      (add vendoredSource "lib/x")).2.directories.get? "lib/x" =
        some (vendoredPackage "app/vendor/lib/x").dir := by decide +kernel
  refine ⟨by decide +kernel, ?_, by decide +kernel, ?_⟩
  · exact not_holds_vendoredPackage (by decide) held (by decide +kernel)
  · exact not_holds_vendoredPackage (by decide) copied (by decide +kernel)

end Session

end GoAtlas
