import GoAtlas.Session.Import

/-!
# Commands of a session

What a run can be asked to do: to add a package, to add all packages below a
directory, and to report the check of a package.
-/

namespace GoAtlas.Session

variable {U : Type} (env : Environment U)

/-- Adds the package at a location. The packages it imports are loaded for its
types only. -/
def add (location : String) : Task U Unit := do
  importRequested env (importDepth env (← get)) location

/-- The failure says that there is no source. -/
def isWithoutSource : Failure → Bool
  | .noSource _ | .noFiles _ => true
  | _ => false

/-- Adds the packages with the given paths. Those without source, and those that
are not found, are passed over. -/
def addEach (depth : Nat) : List String → Task U Unit
  | [] => return
  | location :: rest => do
    try importRequested env depth location
    catch failure =>
      unless isWithoutSource failure || failure.isPackageNotFound do throw failure
    addEach depth rest

/-- The directories below a package directory, other than those of version
control, by their names from there on. A directory of version control has none,
unless it is reached by a link. -/
def directoriesBelow (dir : FilePath) : Except Failure (List Place) :=
  match env.tree.resolve dir with
  | .error fault =>
    .error (.fileSystem dir ("IO error for operation on " ++ dir.text ++ ": " ++ fault.message))
  | .ok place =>
    let name := (dir.fileName?.map FilePath.mk).getD dir
    if ImportPath.inRecords name && !env.tree.isLink dir then .ok []
    else .ok (env.tree.directoriesBelow (fun name => ImportPath.inRecords ⟨name⟩) place)

/-- Adds the package at a location and every package in a directory below it.
The location itself may be without source, but it has to be found. -/
def addRecursive (location : String) : Task U Unit := do
  let depth := importDepth env (← get)
  try importRequested env depth location
  catch failure => unless isWithoutSource failure do throw failure
  let session ← get
  match session.located.get? location with
  | none => throw (.packageNotFound location "root was not located")
  | some root =>
    let package := root.package
    match directoriesBelow env root.dir with
    | .error failure => throw failure
    | .ok below =>
      addEach env depth
        (below.map fun names => ImportPath.join package (String.intercalate "/" names))

/-- The check of a loaded package, by its location or its path. -/
def typeCheck (location : String) : Task U Checked := do
  let session ← get
  let package := (session.knownPackage? location).getD (ImportPath.canonical location)
  check env (importAt env (importDepth env session)) package
  match (← get).checked? package with
  | some checked => return checked
  | none => throw (.unknownPackage package)

end GoAtlas.Session
