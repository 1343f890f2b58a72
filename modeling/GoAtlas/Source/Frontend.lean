import GoAtlas.Check.Package
import GoAtlas.Frontend
import GoAtlas.Source.FileReader

/-!
# The front end for declarations

It reads the declarations of a Go source file line by line and checks them
without looking into function bodies.
-/

namespace GoAtlas.Source

/-- The front end for declarations. -/
def frontend : Frontend SourceTree where
  parse path text := (parse path text).mapError fun fault => fault.message path
  check := Check.package
  predeclared := [Check.errorDefinition]

theorem parse_of_frontend {path : FilePath} {text : String} {file : SourceFile SourceTree}
    (parsed : frontend.parse path text = .ok file) : parse path text = .ok file := by
  have read : (parse path text).mapError (fun fault => fault.message path) = .ok file := parsed
  cases answer : parse path text with
  | error fault =>
    rw [answer] at read
    cases read
  | ok found =>
    rw [answer] at read
    cases read
    rfl

end GoAtlas.Source
