import GoAtlas.Text.Lines
import GoAtlas.Toml.Word

/-!
# TOML documents

A document is a list of statements, one to a line: headers of tables and keys
with their values. Values are nested at most `nestingLimit` deep, and a dotted
key has no more than so many parts. A string stands between double quotes, where
a backslash starts an escape, or between single quotes, where it does not. Three
quotes enclose a text of several lines; up to two more may stand right before the
closing three.

Like all of the format, this only decodes the text of a configuration.
-/

namespace GoAtlas.Toml

/-- A reader takes what it reads off the front of a text. -/
abbrev Reader := StateT (List Char) Option

/-- The text has to come next. -/
def literal (text : String) : Reader Unit := fun input =>
  (Text.dropStart? text input).map fun rest => ((), rest)

/-- One character of a kind. -/
def one (kind : Char → Bool) : Reader Char
  | c :: rest => if kind c then some (c, rest) else none
  | [] => none

/-- The characters of a kind that come next. -/
def run (kind : Char → Bool) : Reader (List Char) := fun input => some (input.span kind)

/-- What a reader takes until it fails, at most so many times. -/
def upTo (item : Reader α) : Nat → Reader (List α)
  | 0 => return []
  | times + 1 =>
    (do
      let first ← item
      let rest ← upTo item times
      return first :: rest) <|> return []

/-- What a reader takes until it fails. It takes one character or more each time. -/
def many (item : Reader α) : Reader (List α) := do
  upTo item (← get).length

/-- Tabs, and all characters other than controls. -/
def isPlain (c : Char) : Bool :=
  c == '\t' || (' ' ≤ c && c != '\x7f')

/-- Spaces and tabs. -/
def isSpace (c : Char) : Bool :=
  c == ' ' || c == '\t'

def spaces : Reader Unit := discard (run isSpace)

def lineEnd : Reader Unit := literal "\n" <|> literal "\r\n"

def comment : Reader Unit := literal "#" *> discard (run isPlain)

/-- Spaces, line ends and comments that end with a line. -/
def trivia : Reader Unit :=
  discard (many (discard (one isSpace) <|> lineEnd <|> comment *> lineEnd))

/-! ## Strings -/

/-- The character with the code point that so many hexadecimal digits spell. -/
def charOfHex (places : Nat) : Reader Char := fun input => do
  let values ← (input.take places).mapM hexadecimal
  let code := ofDigits 16 values
  if values.length = places ∧ code.isValidChar then some (Char.ofNat code, input.drop places)
  else none

/-- The character an escape stands for, without its backslash. -/
def escape : Reader Char := do
  match ← one fun _ => true with
  | 'b' => return '\x08'
  | 't' => return '\t'
  | 'n' => return '\n'
  | 'f' => return '\x0c'
  | 'r' => return '\r'
  | '"' => return '"'
  | '\\' => return '\\'
  | 'u' => charOfHex 4
  | 'U' => charOfHex 8
  | _ => failure

/-- A string on one line. -/
def lineString : Reader String :=
  let between (quote : String) (char : Reader Char) : Reader String :=
    String.ofList <$> (literal quote *> many char <* literal quote)
  between "\"" (literal "\\" *> escape <|> one fun c => isPlain c && c != '"' && c != '\\')
    <|> between "'" (one fun c => isPlain c && c != '\x27')

/-- A string of several lines between `fence` and `fence`. A line end right after
the first is dropped. -/
def block (fence quote : String) (item : Reader (List Char)) : Reader String := do
  literal fence
  lineEnd <|> pure ()
  let parts ← many do
    if Text.startsWith fence (← get) then failure
    (lineEnd *> return ['\n']) <|> item
  literal fence
  let more ← many (literal quote *> return quote.toList)
  if more.length ≤ 2 then return String.ofList (parts ++ more).flatten else failure

/-- A string of any form. A backslash at the end of a line joins the next one. -/
def string : Reader String := do
  let plain (kind : Char → Bool) : Reader (List Char) := return [← one kind]
  let joined : Reader (List Char) := do
    literal "\\" *> spaces *> lineEnd
    discard (many (discard (one isSpace) <|> lineEnd))
    return []
  let escaped : Reader (List Char) := return [← literal "\\" *> escape]
  if Text.startsWith "\"\"\"" (← get) then
    block "\"\"\"" "\"" (joined <|> escaped <|> plain fun c => isPlain c && c != '\\')
  else if Text.startsWith "'''" (← get) then block "'''" "'" (plain isPlain)
  else lineString

/-! ## Values -/

/-- A value that is a word. -/
def wordValue : Reader Value := fun input =>
  (ofWord? (word input).1).map fun value => (value, (word input).2)

/-- Values are nested no deeper, and keys have no more parts. -/
def nestingLimit : Nat := 79

/-- One part of a key. -/
def keyPart : Reader String :=
  lineString <|> do
    let name ← run fun c => c.isAlphanum || c == '-' || c == '_'
    if name.isEmpty then failure else return String.ofList name

/-- A key, with spaces around its parts: those before the last one, and the last one. -/
def key : Reader (List String × String) := do
  let part : Reader String := spaces *> keyPart <* spaces
  let first ← part
  let rest ← many (literal "." *> part)
  if nestingLimit ≤ rest.length then failure
  else return ((first :: rest).dropLast, (first :: rest).getLastD first)

/-- A key with its value, which `=` divides. -/
def assignment (item : Reader Value) : Reader ((List String × String) × Value) := do
  let path ← key
  literal "=" *> spaces
  return (path, ← item)

/-- The rest of a list, up to its closing bracket. A comma may follow the last
item. -/
def items (item : Reader Value) : Reader (List Value) := do
  trivia
  (literal "]" *> return []) <|> do
    let first ← item <* trivia
    let rest ← many (literal "," *> trivia *> item <* trivia)
    literal "," *> trivia <|> pure ()
    literal "]"
    return first :: rest

/-- The rest of a table between braces, up to the closing brace. -/
def fields (item : Reader Value) : Reader Entries := do
  spaces
  (literal "\x7d" *> return []) <|> do
    let first ← assignment item <* spaces
    let rest ← many (literal "," *> assignment item <* spaces)
    literal "\x7d"
    (first :: rest).foldlM (fun entries ((path, last), value) =>
      StateT.lift (Entries.assign path last value .inline entries)) []

/-- A value with lists and tables nested at most `depth` deep. -/
def value : Nat → Reader Value
  | 0 => .text <$> string <|> wordValue
  | depth + 1 => .text <$> string <|> (literal "[" *> .list <$> items (value depth))
      <|> (literal "\x7b" *> .table .inline <$> fields (value depth)) <|> wordValue

/-! ## Statements -/

/-- A statement of a document. -/
inductive Statement where
  /-- The header `[a.b]`. -/
  | table (path : List String) (last : String)
  /-- The header `[[a.b]]`. -/
  | next (path : List String) (last : String)
  /-- A key with its value. -/
  | assign (path : List String) (last : String) (value : Value)

/-- One statement and its line, which may end with a comment. -/
def statement : Reader Statement := do
  let found ←
    (do
      let (path, last) ← literal "[[" *> key <* literal "]]"
      return .next path last) <|>
    (do
      let (path, last) ← literal "[" *> key <* literal "]"
      return .table path last) <|> do
      let ((path, last), value) ← assignment (value nestingLimit)
      return .assign path last value
  spaces *> (comment <|> pure ())
  if (← get).isEmpty then return found else lineEnd *> return found

/-- The statements of a document. Lines may be empty or hold only a comment. -/
def statements : Reader (List Statement) := do
  let found ← many (trivia *> statement)
  trivia *> (comment <|> pure ())
  if (← get).isEmpty then return found else failure

/-- What a document holds so far, and the path of the table that keys go to. -/
structure Document where
  entries : Entries := []
  here : List String := []

/-- The document with one more statement. -/
def Document.add (document : Document) : Statement → Option Document
  | .table path last => do
    let entries ← document.entries.change .implied (fun _ => Entries.openTable last) path .header
    return { entries, here := path ++ [last] }
  | .next path last => do
    let entries ← document.entries.change .implied (fun _ => Entries.openNext last) path .header
    return { entries, here := path ++ [last] }
  | .assign path last found => do
    let entries ← document.entries.change .implied (Entries.assign path last found)
      document.here .header
    return { document with entries }

/-- The entries of a document. A byte order mark at its start is dropped. -/
def parse (text : String) : Option Entries := do
  let input := text.toList
  let (found, _) ← statements.run (if input.head? = some '\uFEFF' then input.tail else input)
  let document ← found.foldlM Document.add {}
  return document.entries

end GoAtlas.Toml
