import GoAtlas.Comment
import GoAtlas.Position

/-!
# Comments by position

Comments are not attached to declarations. Every group is found by the file and
the line it ends on, and the documentation of a declaration is the group that
ends on the line above it.
-/

namespace GoAtlas

/-- Comment groups by the components of their file and their last line, the
latest first. -/
structure CommentIndex where
  entries : List ((List Component × Nat) × CommentGroup) := []

namespace CommentIndex

/-- The index with one more group of a file. It hides an earlier group that ends
on the same line of the same file. -/
def add (index : CommentIndex) (file : FilePath) (group : CommentGroup) : CommentIndex :=
  ⟨((file.components, group.stop), group) :: index.entries⟩

/-- The index with all the groups of a file. -/
def addAll (index : CommentIndex) (file : FilePath) (groups : List CommentGroup) :
    CommentIndex :=
  groups.foldl (fun index group => index.add file group) index

/-- The group that ends on a line. -/
def endingAt? (index : CommentIndex) (file : FilePath) (line : Nat) : Option CommentGroup :=
  index.entries.lookup (file.components, line)

/-- The group that ends a number of lines above a position. -/
def prior? (index : CommentIndex) (pos : Position) (lines : Nat) : Option CommentGroup :=
  if lines ≤ pos.line then index.endingAt? pos.file (pos.line - lines) else none

/-- The text of the group right above a position. -/
def docLines (index : CommentIndex) (pos : Option Position) : List String :=
  match pos.bind fun pos => index.prior? pos 1 with
  | some group => group.textLines
  | none => []

end CommentIndex

end GoAtlas
