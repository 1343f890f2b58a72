import GoAtlas.Text.Blank
import GoAtlas.Text.Lines

/-!
# Scanning a source line

Before a line is cut into tokens it is scanned for three things: a comment at
its end, the balance of its braces, and the place where the body of a function
starts. The first two pass over literals.
-/

namespace GoAtlas.Source

open Text

/-- Where a scan stands: inside a literal or not. -/
inductive Quoting where
  | outside
  | inside (quote : Char)
  /-- Right after a backslash within a literal. -/
  | escaped (quote : Char)
deriving DecidableEq, Repr

namespace Quoting

/-- The characters that open a literal. -/
def isQuote (c : Char) : Bool :=
  c == '"' || c == '\x60' || c == '\''

/-- One character is passed. A raw literal has no escapes. -/
def step : Quoting → Char → Quoting
  | .outside, c => if isQuote c then .inside c else .outside
  | .inside quote, c =>
    if c = '\\' ∧ quote ≠ '\x60' then .escaped quote
    else if c = quote then .outside
    else .inside quote
  | .escaped quote, _ => .inside quote

end Quoting

/-- The text up to the first `//` outside literals. -/
def beforeComment : Quoting → List Char → List Char
  | _, [] => []
  | state, c :: rest =>
    if state = .outside ∧ c = '/' ∧ rest.head? = some '/' then []
    else c :: beforeComment (state.step c) rest

/-- A line without the comment and the blanks at its end. -/
def stripComment (line : List Char) : List Char :=
  trimEnd (beforeComment .outside line)

/-- How much one character outside literals opens. -/
def braceWeight (c : Char) : Int :=
  if c = '\x7b' then 1 else if c = '\x7d' then -1 else 0

/-- Opening braces minus closing braces outside literals, from a state on. -/
def balanceFrom : Quoting → List Char → Int
  | _, [] => 0
  | state, c :: rest =>
    (if state = .outside then braceWeight c else 0) + balanceFrom (state.step c) rest

/-- Opening braces minus closing braces outside literals. -/
def braceBalance (text : List Char) : Int :=
  balanceFrom .outside text

/-- The text, given last character first, ends in a word that opens a type
literal. -/
def opensLiteral (before : List Char) : Bool :=
  let before := (trimStart before).reverse
  endsWith "struct" before || endsWith "interface" before

/-- The header and the body of a function from some place on. `before` is the
text up to there, last character first; `depth` counts open brackets and
`literal` open braces of type literals. -/
def splitBodyFrom (before : List Char) (depth literal : Int) :
    List Char → List Char × List Char
  | [] => (trimEnd before.reverse, [])
  | c :: rest =>
    if c = '(' ∨ c = '[' then splitBodyFrom (c :: before) (depth + 1) literal rest
    else if c = ')' ∨ c = ']' then splitBodyFrom (c :: before) (depth - 1) literal rest
    else if c = '\x7b' then
      if literal > 0 then splitBodyFrom (c :: before) depth (literal + 1) rest
      else if depth = 0 ∧ !opensLiteral before then (trimEnd before.reverse, c :: rest)
      else splitBodyFrom (c :: before) depth 1 rest
    else if c = '\x7d' ∧ literal > 0 then splitBodyFrom (c :: before) depth (literal - 1) rest
    else splitBodyFrom (c :: before) depth literal rest

/-- The header of a function and its body, which starts at the first brace that
is not within brackets and does not open a type literal. -/
def splitBody (text : List Char) : List Char × List Char :=
  splitBodyFrom [] 0 0 text

end GoAtlas.Source
