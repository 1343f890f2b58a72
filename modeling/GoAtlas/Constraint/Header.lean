import GoAtlas.Constraint.Parser
import GoAtlas.Constraint.Legacy

/-!
# The constraint of a file

A file says its constraint in its header, the comment lines above everything
else. The first line that starts with `//go:build` decides; without one, all the
lines that start with `// +build` have to hold.
-/

namespace GoAtlas.Constraint

open Text

/-- The comment lines above the first line of another sort, trimmed. -/
def headerLines (text : List Char) : List (List Char) :=
  (((lines text).map trim).filter fun line => !line.isEmpty).takeWhile (startsWith "//")

/-- The constraint of a file, when its header has one. -/
def ofFile? (text : String) : Option (Except Malformed Constraint) :=
  let header := headerLines text.toList
  match header.findSome? (dropStart? "//go:build") with
  | some expression => some (parse (String.ofList (trim expression)))
  | none =>
    let parsed := (header.filterMap (dropStart? "// +build")).mapM fun body =>
      parseLegacy (String.ofList (trim body))
    match parsed with
    | .ok constraints => (joinAll .and constraints).map .ok
    | .error malformed => some (.error malformed)

end GoAtlas.Constraint
