import GoAtlas.FilePath
import GoAtlas.Text.Quoted

/-!
# Failures of a run

Each failure is a cause of its own. Some are passed over when they happen to a
package that nobody asked for by name, but that another package imports. One
stands for a run that does not come to an end.
-/

namespace GoAtlas

open Text

/-- Why a run could not do what it was asked to do. -/
inductive Failure where
  | packageNotFound (path reason : String)
  | circularDependency (package : String)
  | parse (file : FilePath) (message : String)
  | fileSystem (path : FilePath) (cause : String)
  /-- A package was found in two directories. -/
  | duplicateResolution (package : String) (dir previous : FilePath)
  | noSource (location : String)
  | noFiles (package : String)
  | unknownPackage (package : String)
  | typeCheck (package message : String)
  | config
  /-- The run never returns, as a checker that it asked does not. -/
  | unending
deriving DecidableEq, Repr

namespace Failure

/-- The words for a failure. -/
def message : Failure → String
  | .packageNotFound path reason => "Package not found: " ++ path ++ ": " ++ reason
  | .circularDependency package => "Circular dependency for " ++ quoted package
  | .parse file message => "Parse error in " ++ file.text ++ ": " ++ message
  | .fileSystem path cause => "Filesystem error at " ++ path.text ++ ": " ++ cause
  | .duplicateResolution package dir previous =>
    "Package " ++ quoted package ++ " (" ++ dir.text ++ ") previously resolved to " ++ previous.text
  | .noSource location => "No buildable source in " ++ quoted location
  | .noFiles package => "No files for package " ++ quoted package
  | .unknownPackage package => "Package is not known: " ++ quoted package
  | .typeCheck package message => "Type checking " ++ quoted package ++ " failed: " ++ message
  | .config => "Invalid configuration"
  | .unending => ""

/-- There is no such package. -/
def isPackageNotFound : Failure → Bool
  | .packageNotFound _ _ => true
  | _ => false

/-- The failure is passed over for a package that is only imported. -/
def isRecoverable : Failure → Bool
  | .packageNotFound _ _ | .parse _ _ | .noSource _ | .noFiles _ | .typeCheck _ _ => true
  | _ => false

end Failure

end GoAtlas
