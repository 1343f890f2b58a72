import GoAtlas.Locator

/-!
# Configuration

Which packages and files a run sees.
-/

namespace GoAtlas

/-- The options of a run, and the platform that it is on. -/
structure Config where
  /-- Tags that hold besides those of the platform. -/
  buildTags : List String := []
  /-- Test files belong to their package. -/
  includeTestFiles : Bool := false
  /-- The roots that import paths are looked for in, in order. -/
  searchPaths : List FilePath := []
  /-- The directory that relative locations start from. -/
  workingDir : Option FilePath := none
  /-- No option: the process has it. -/
  platform : Platform := {}
deriving DecidableEq, Repr

namespace Config

/-- The options with more tags. -/
def addTags (config : Config) (tags : List String) : Config :=
  { config with buildTags := config.buildTags ++ tags }

/-- The options with one more root. -/
def addSearchPath (config : Config) (path : FilePath) : Config :=
  { config with searchPaths := config.searchPaths ++ [path] }

/-- The options with test files included or not. -/
def withTestFiles (config : Config) (include_ : Bool) : Config :=
  { config with includeTestFiles := include_ }

/-- The options with the roots that the Go environment names: `src` below every
entry of the workspace list, which is divided by colons, and below the
installation. -/
def addGoEnvironment (config : Config) (goPath goRoot : Option String) : Config :=
  let entries := (goPath.map fun list => list.toList.splitOn ':').getD []
  let workspaces := (entries.filter fun entry => !entry.isEmpty).map String.ofList
  let roots := (workspaces ++ goRoot.toList).map fun root => (⟨root⟩ : FilePath).join "src"
  { config with searchPaths := config.searchPaths ++ roots }

/-- Where a run looks for packages. `current` is the directory it runs in. -/
def roots (config : Config) (current : FilePath) : Roots :=
  { searchPaths := config.searchPaths, workingDir := config.workingDir.getD current }

end Config

end GoAtlas
