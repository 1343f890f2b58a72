import GoAtlas.Comment

/-!
# The comment groups of a file

A line is a comment line when it holds nothing but a comment that ends on it. A
maximal run of comment lines is a group.
-/

namespace GoAtlas.Source

open Text

/-- A trimmed line that is a comment as a whole. -/
def isCommentLine (line : List Char) : Bool :=
  startsWith "//" line || (startsWith "/*" line && endsWith "*/" line)

/-- The group with one more line. -/
def extend (group : CommentGroup) (number : Nat) (line : List Char) : CommentGroup :=
  { group with stop := number, comments := group.comments ++ [String.ofList line] }

/-- The groups of the lines from `number` on, where `current` is the group that
the line before belongs to. -/
def groupsFrom (number : Nat) (current : Option CommentGroup) :
    List (List Char) → List CommentGroup
  | [] => current.toList
  | line :: rest =>
    let line := trim line
    if isCommentLine line then
      let group := current.getD { start := number, stop := number, comments := [] }
      groupsFrom (number + 1) (some (extend group number line)) rest
    else current.toList ++ groupsFrom (number + 1) none rest

/-- The comment groups of a file, in order. -/
def commentGroups (lines : List (List Char)) : List CommentGroup :=
  groupsFrom 1 none lines

end GoAtlas.Source
