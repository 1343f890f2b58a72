import GoAtlas.Config
import GoAtlas.Failure
import GoAtlas.Toml.Document

/-!
# Reading a configuration

A configuration is written in TOML. Every option has a key of its own and may be
left out; other keys are passed over. The readers of TOML decode what comes in, as far
as options can be written: no theorem is about them.
-/

namespace GoAtlas.Config

open Toml

/-- The option under a key, read by `read`; `default` where the key is missing. -/
def option (entries : Entries) (key : String) (default : α) (read : Value → Option α) : Option α :=
  match entries.lookup key with
  | none => some default
  | some value => read value

/-- A text. -/
def text? : Value → Option String
  | .text content => some content
  | _ => none

/-- A list of texts. -/
def texts? : Value → Option (List String)
  | .list items => items.mapM text?
  | _ => none

/-- A flag. -/
def flag? : Value → Option Bool
  | .flag value => some value
  | _ => none

/-- The configuration in the entries of a document. -/
def ofEntries? (entries : Entries) : Option Config := do
  let buildTags ← option entries "build_tags" [] texts?
  let includeTestFiles ← option entries "include_test_files" false flag?
  let searchPaths ← option entries "search_paths" [] texts?
  let workingDir ← option entries "working_dir" none fun value => (text? value).map some
  return {
    buildTags, includeTestFiles
    searchPaths := searchPaths.map FilePath.mk
    workingDir := workingDir.map FilePath.mk }

/-- The configuration in a TOML document. -/
def parse (text : String) : Except Failure Config :=
  match (Toml.parse text).bind ofEntries? with
  | some config => .ok config
  | none => .error .config

/-- The configuration in a file. -/
def load (tree : FileTree) (path : FilePath) : Except Failure Config :=
  match tree.read path with
  | .ok text => parse text
  | .error fault => .error (.fileSystem path fault.message)

end GoAtlas.Config
