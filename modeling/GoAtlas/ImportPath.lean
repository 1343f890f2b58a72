import GoAtlas.FilePath

/-!
# Import paths

A package is known by its import path. The copy of a package kept under a
`vendor` directory is the package itself, so the canonical path of an import is
what follows the first `/vendor/`.
-/

namespace GoAtlas.ImportPath

open Text

/-- The path after the first `/vendor/`; a path without one is canonical. -/
def canonical (path : String) : String :=
  match afterFirst? "/vendor/".toList path.toList with
  | some rest => String.ofList rest
  | none => path

/-- A path below another one, with a single slash between the two. -/
def join (base relative : String) : String :=
  let relative := String.ofList (dropAround '/' relative.toList)
  if relative.isEmpty then base
  else if base.isEmpty then relative
  else String.ofList (dropTrailing '/' base.toList) ++ "/" ++ relative

/-- The part of a path after its last slash. -/
def lastSegment (path : String) : String :=
  String.ofList (path.toList.reverse.takeWhile (· != '/')).reverse

/-- The directories that hold the records of a version control system. -/
def recordDirectories : List String :=
  [".git", ".hg", ".svn", ".bzr"]

/-- Some component of the path is a version control directory. -/
def inRecords (path : FilePath) : Bool :=
  path.names.any recordDirectories.contains

end GoAtlas.ImportPath
