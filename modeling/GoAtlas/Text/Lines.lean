import GoAtlas.Text.Blank

/-!
# Lines and pieces of a text

A text is a list of characters. It is cut into lines at line feeds, where a
carriage return right before a line feed belongs to the line's end, and into
pieces at the first occurrence of a separator.
-/

namespace GoAtlas.Text

/-- A line without the carriage return it ends with, if there is one. -/
def dropReturn (line : List Char) : List Char :=
  if line.getLast? = some '\r' then line.dropLast else line

/-- The lines of a text. A line feed ends a line, so a text that ends with one
has no further line after it. -/
def lines (text : List Char) : List (List Char) :=
  let pieces := text.splitOn '\n'
  pieces.dropLast.map dropReturn ++ pieces.getLast?.toList.filter fun line => !line.isEmpty

/-- The parts before and after the first separator, when there is one. -/
def splitFirst (separator : Char) : List Char → Option (List Char × List Char)
  | [] => none
  | c :: rest =>
    if c = separator then some ([], rest)
    else (splitFirst separator rest).map fun (before, after) => (c :: before, after)

/-- What follows `start` in a text that begins with it. -/
def dropStart? (start : String) (text : List Char) : Option (List Char) :=
  start.toList.isPrefixOf? text

/-- The text begins with `start`. -/
def startsWith (start : String) (text : List Char) : Bool :=
  start.toList.isPrefixOf text

/-- The text ends with `final`. -/
def endsWith (final : String) (text : List Char) : Bool :=
  final.toList.isSuffixOf text

/-- The text without the run of `c` it ends with. -/
def dropTrailing (c : Char) (text : List Char) : List Char :=
  (text.reverse.dropWhile (· == c)).reverse

/-- The text without the runs of `c` at either end. -/
def dropAround (c : Char) (text : List Char) : List Char :=
  dropTrailing c (text.dropWhile (· == c))

/-- The characters after the first occurrence of `inner`, when it occurs. -/
def afterFirst? (inner : List Char) : List Char → Option (List Char)
  | [] => if inner.isEmpty then some [] else none
  | c :: rest =>
    match inner.isPrefixOf? (c :: rest) with
    | some after => some after
    | none => afterFirst? inner rest

end GoAtlas.Text
