import GoAtlas.Constraint.Header
import GoAtlas.FileTree
import GoAtlas.ImportPath
import GoAtlas.Text.Quoted

/-!
# Locating packages

A location is a directory (`.`, `..`, what starts with one of these and a slash,
or an absolute path) or an import path, which is looked for below the search
roots. Locating gives the directory, the import path and the source files that
take part under a set of tags.
-/

namespace GoAtlas

open Text

/-- A package directory. -/
structure Located where
  /-- The import path as it was found, not yet canonical. -/
  importPath : String
  dir : FilePath
  /-- The source files other than tests, in name order. -/
  files : List String
  testFiles : List String
deriving DecidableEq, Repr

/-- The path that a package goes under. -/
abbrev Located.package (located : Located) : String :=
  ImportPath.canonical located.importPath

/-- Some file takes part. -/
def Located.hasSource (located : Located) : Bool :=
  !located.files.isEmpty || !located.testFiles.isEmpty

/-- Why locating failed. -/
inductive LocateFault where
  | notFound (location : String) (searched : List FilePath)
  /-- The directory is there, but no file of it takes part. -/
  | noSource (located : Located)
  | unreadable (path : FilePath) (cause : String)
deriving DecidableEq, Repr

/-- The words for a fault. -/
def LocateFault.message : LocateFault → String
  | .notFound location searched =>
    "Cannot find package " ++ quoted location ++ " in any of "
      ++ quotedList (searched.map FilePath.text)
  | .noSource located => "No buildable Go source files in " ++ located.dir.text
  | .unreadable path cause => "IO error at " ++ path.text ++ ": " ++ cause

/-- Where packages are looked for. -/
structure Roots where
  searchPaths : List FilePath
  workingDir : FilePath

/-- The location is a directory and no import path. -/
def isLocal (location : String) : Bool :=
  location == "." || location == ".." || startsWith "./" location.toList
    || startsWith "../" location.toList || (⟨location⟩ : FilePath).isAbsolute

/-- The names of source files. Files that start with `_` or `.` are set aside. -/
def isSourceName (name : String) : Bool :=
  endsWith ".go" name.toList && !startsWith "_" name.toList
    && !startsWith "." name.toList

/-- The names of test files among the source files. -/
def isTestName (name : String) : Bool :=
  endsWith "_test.go" name.toList

/-- The file takes part under the tags. A malformed constraint does not count. -/
def takesPart (tags : NameSet) (content : String) : Bool :=
  match Constraint.ofFile? content with
  | some (.ok constraint) => constraint.eval tags
  | _ => true

namespace Roots

variable (roots : Roots) (tree : FileTree)

/-- The import path of a directory: its names below the first root that it is
strictly below of. -/
def importPath? (dir : FilePath) : Option String :=
  roots.searchPaths.findSome? fun root =>
    let root := ((tree.canonical? root).map Place.path).getD root
    (root.below? dir).bind fun rest =>
      let names := rest.filterMap Component.name?
      if names.isEmpty then none else some (String.intercalate "/" names)

/-- The directory of a location and the import path it has. -/
def directory (location : String) : Except LocateFault (Place × String) :=
  if isLocal location then
    let dir := (roots.workingDir.join location).clean
    match tree.directory? dir with
    | none => .error (.notFound location [dir])
    | some place => .ok (place, (roots.importPath? tree place.path).getD place.path.text)
  else
    match roots.searchPaths.findSome? fun root => tree.directory? (root.join location) with
    | some place => .ok (place, location)
    | none => .error (.notFound location roots.searchPaths)

/-- The names of those files that take part. Every one of them is read. -/
def selected (tags : NameSet) (dir : FilePath) : List String → Except LocateFault (List String)
  | [] => .ok []
  | name :: rest => do
    let path := dir.join name
    let content ← (tree.read path).mapError fun fault => .unreadable path fault.message
    let rest ← selected tags dir rest
    return if takesPart tags content then name :: rest else rest

/-- The package at a location. -/
def locate (tags : NameSet) (location : String) : Except LocateFault Located := do
  let (place, importPath) ← roots.directory tree location
  let names ← selected tree tags place.path ((tree.filesIn place).filter isSourceName)
  let (testFiles, files) := names.partition isTestName
  let located := { importPath, dir := place.path, files, testFiles }
  if located.hasSource then return located else .error (.noSource located)

end Roots

/-- A way to find packages. -/
inductive Locator where
  /-- Packages are looked for below search roots. -/
  | search (roots : Roots)
  /-- Packages are given one by one, by location. -/
  | listed (packages : Table (Except LocateFault Located))

/-- The package at a location. -/
def Locator.locate (locator : Locator) (tree : FileTree) (tags : NameSet) (location : String) :
    Except LocateFault Located :=
  match locator with
  | .search roots => roots.locate tree tags location
  | .listed packages => (packages.get? location).getD (.error (.notFound location []))

end GoAtlas
