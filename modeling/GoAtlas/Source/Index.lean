import GoAtlas.Comment.Index
import GoAtlas.Table

/-!
# Source files

The files that were read in a run, by package, with their comments and the
imports they name.
-/

namespace GoAtlas

/-- A source file as a front end reads it. `unit` is the front end's own view of
the file, which it is handed back when the package is checked. -/
structure SourceFile (Unit : Type) where
  path : FilePath
  packageName : String
  /-- The comment of the package clause. -/
  doc : Option CommentGroup
  comments : List CommentGroup
  /-- The imports as they are written. -/
  imports : List String
  unit : Unit

/-- The files of a run. -/
structure SourceIndex (Unit : Type) where
  files : Table (List (SourceFile Unit)) := ∅
  comments : CommentIndex := {}
  imports : Table NameSet := ∅

namespace SourceIndex

variable {Unit : Type}

/-- The files of a package in the order they were read. -/
def filesOf (index : SourceIndex Unit) (package : String) : List (SourceFile Unit) :=
  (index.files.get? package).getD []

/-- The package has a file of that path. -/
def containsFile (index : SourceIndex Unit) (package : String) (path : FilePath) : Bool :=
  (index.filesOf package).any fun file => file.path.same path

/-- Some file of the package was read. -/
def hasPackage (index : SourceIndex Unit) (package : String) : Bool :=
  index.files.contains package

/-- The packages with files, in path order. -/
def packages (index : SourceIndex Unit) : List String :=
  index.files.keys

/-- The imports of all files of a package, each once, in order. -/
def importsOf (index : SourceIndex Unit) (package : String) : List String :=
  ((index.imports.get? package).map NameSet.toList).getD []

/-- The index with one more file of a package. A file that is there already is
left alone. -/
def insert (index : SourceIndex Unit) (package : String) (file : SourceFile Unit) :
    SourceIndex Unit :=
  if index.containsFile package file.path then index
  else
    { files := index.files.insert package (index.filesOf package ++ [file])
      comments := index.comments.addAll file.path file.comments
      imports := index.imports.insert package
        (NameSet.addAll ((index.imports.get? package).getD ∅) file.imports) }

end SourceIndex

end GoAtlas
