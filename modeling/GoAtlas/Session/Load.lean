import GoAtlas.Session

/-!
# Loading packages

Loading a package locates it, holds it to the directory it was found in before,
and reads its files. Files that were read before are left alone.
-/

namespace GoAtlas.Session

open Text

variable {U : Type} (env : Environment U)

/-- The package at a location. Each location is looked for once; a directory
without source is remembered too. -/
def locate (location : String) : Task U Located := do
  let session ← get
  match session.located.get? location with
  | some located => return located
  | none =>
    match env.locator.locate env.tree session.tags location with
    | .ok located | .error (.noSource located) =>
      set (session.remember location located)
      return located
    | .error (.notFound location searched) =>
      throw (.packageNotFound location
        ("not found in any of " ++ quotedList (searched.map FilePath.text)))
    | .error (.unreadable path cause) => throw (.fileSystem path cause)

/-- Holds a package to its directory. -/
def settle (package : String) (dir : FilePath) : Task U Unit := do
  let session ← get
  match session.directories.get? package with
  | some previous =>
    unless previous.same dir do throw (.duplicateResolution package dir previous)
  | none => set { session with directories := session.directories.insert package dir }

/-- Reads a file into a package, unless it is there already. -/
def parseFile (package : String) (path : FilePath) (content : String) : Task U Unit := do
  let session ← get
  unless session.sources.containsFile package path do
    set (session.record (.parse path))
    match env.frontend.parse path content with
    | .error message => throw (.parse path message)
    | .ok file => modify fun session => session.addFile package { file with path }

/-- Reads the files of a directory into a package. -/
def parseFiles (package : String) (dir : FilePath) : List String → Task U Unit
  | [] => return
  | name :: rest => do
    let path := dir.join name
    match env.tree.read path with
    | .error fault => throw (.fileSystem path fault.message)
    | .ok content => parseFile env package path content
    parseFiles package dir rest

/-- Loads the package at a location and gives its canonical path. -/
def load (location : String) : Task U String := do
  let located ← locate env location
  let package := located.package
  settle package located.dir
  let session ← get
  let files := located.files ++ if session.config.includeTestFiles then located.testFiles else []
  if files.isEmpty then throw (.noSource location)
  parseFiles env package located.dir files
  return package

/-- The canonical path of the package at a location, which is loaded unless a
file of it was read before. -/
def loaded (location : String) : Task U String := do
  let session ← get
  match session.knownPackage? location with
  | some package => if session.sources.hasPackage package then return package else load env location
  | none => load env location

end GoAtlas.Session
