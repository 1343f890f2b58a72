import GoAtlas.Constraint.Token
import GoAtlas.Text.Lines

/-!
# The older spelling of constraints

A line of the older spelling lists terms between blanks, of which one has to
hold. A term lists factors between commas, all of which have to hold, and a
factor is a tag with at most one `!` before it.
-/

namespace GoAtlas.Constraint

open Text

/-- The constraints of a list joined from the left. -/
def joinAll (connective : Constraint → Constraint → Constraint) :
    List Constraint → Option Constraint
  | [] => none
  | first :: rest => some (rest.foldl connective first)

/-- A tag is a non-empty run of tag characters. -/
def isTag (text : List Char) : Bool :=
  !text.isEmpty && text.all isTagChar

/-- A tag, or a tag after one `!`. -/
def factor (text : List Char) : Except Fault Constraint :=
  match dropStart? "!" text with
  | some name => if isTag name then .ok (.not (.tag (String.ofList name))) else .error .invalidTag
  | none => if isTag text then .ok (.tag (String.ofList text)) else .error .invalidTag

/-- The factors of one term, all of which have to hold. -/
def term (text : List Char) : Except Fault (Option Constraint) :=
  joinAll .and <$> (text.splitOn ',').mapM factor

/-- The terms of a line, one of which has to hold. -/
def terms (text : List Char) : Except Fault Constraint := do
  match joinAll .or ((← (words text).mapM term).filterMap id) with
  | some constraint => .ok constraint
  | none => .error .empty

/-- The constraint a line of the older spelling stands for. -/
def parseLegacy (body : String) : Except Malformed Constraint :=
  match terms body.toList with
  | .ok constraint => .ok constraint
  | .error fault => .error { line := body, fault }

end GoAtlas.Constraint
