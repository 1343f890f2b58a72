import GoAtlas.Checked
import GoAtlas.Source.Index

/-!
# Front ends

A front end reads source files and checks packages. Everything else a run does
is the same for all of them.
-/

namespace GoAtlas

/-- A reader and checker of source. `U` is what it keeps of a file. -/
structure Frontend (U : Type) where
  /-- The file with a path and a text, or why it cannot be read. -/
  parse : FilePath → String → Except String (SourceFile U)
  /-- The check of a package, from its files and the packages that its imports,
  as they are written, lead to. -/
  check : String → List (SourceFile U) → (String → Option Checked) → Except CheckFault Checked
  /-- The named types every package knows. Of two with one name the later one
  counts. -/
  predeclared : List Definition

end GoAtlas
