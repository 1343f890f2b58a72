import GoAtlas.Text.Lines

/-!
# Comments

A comment group is a run of comments without a blank line or code between them.
Its text leaves out the comment marks, the lines that instruct a tool and the
blank lines at both ends, and shows a run of blank lines as one.
-/

namespace GoAtlas

open Text

/-- A run of comments, marks included, on the lines `start` to `stop`. -/
structure CommentGroup where
  start : Nat
  stop : Nat
  comments : List String
deriving DecidableEq, Repr

namespace CommentGroup

/-- A small letter or a digit of ASCII. -/
def isDirectiveChar (c : Char) : Bool :=
  c.isLower || c.isDigit

/-- A line comment, given without its mark, instructs a tool: it starts with one
of three words or with a name and a colon, as in `go:build`. -/
def isDirective (text : List Char) : Bool :=
  startsWith "line " text || startsWith "extern " text || startsWith "export " text ||
    match splitFirst ':' text with
    | some (name, after) =>
      !name.isEmpty && name.all isDirectiveChar && after.head?.any isDirectiveChar
    | none => false

/-- The text of one comment without its marks; nothing for a directive. -/
def body? (comment : List Char) : Option (List Char) :=
  match dropStart? "//" comment with
  | some rest => if isDirective rest then none else some ((dropStart? " " rest).getD rest)
  | none =>
    match dropStart? "/*" comment with
    | some rest => some (if endsWith "*/" rest then rest.dropLast.dropLast else rest)
    | none => some comment

/-- The lines of all comments of the group, without the blanks at their ends. -/
def rawLines (group : CommentGroup) : List (List Char) :=
  (group.comments.filterMap fun comment => body? comment.toList).flatMap fun body =>
    (body.splitOn '\n').map trimEnd

/-- The lines without blank lines at the start, and with one blank line for each
run of them. `afterBlank` tells that such a line, or nothing, comes before. -/
def collapse (afterBlank : Bool) : List (List Char) → List (List Char)
  | [] => []
  | line :: rest =>
    if line.isEmpty then
      if afterBlank then collapse true rest else line :: collapse true rest
    else line :: collapse false rest

/-- The lines without the blank lines they end with. -/
def dropTrailingBlank (lines : List (List Char)) : List (List Char) :=
  (lines.reverse.dropWhile List.isEmpty).reverse

/-- The lines that the group's text shows. -/
def shownLines (group : CommentGroup) : List (List Char) :=
  dropTrailingBlank (collapse true group.rawLines)

/-- The group's text: its lines joined with line feeds and one more at the end, and
nothing if there are none. -/
def text (group : CommentGroup) : String :=
  if group.shownLines.isEmpty then ""
  else String.intercalate "\n" (group.shownLines.map String.ofList) ++ "\n"

/-- The lines of a text without the line feeds that it ends with. -/
def splitLines (text : String) : List String :=
  let trimmed := dropTrailing '\n' text.toList
  if trimmed.isEmpty then [] else (trimmed.splitOn '\n').map String.ofList

/-- The lines of the group's text. -/
def textLines (group : CommentGroup) : List String :=
  splitLines group.text

end CommentGroup

end GoAtlas
