import GoAtlas.Source.Comments
import GoAtlas.Source.Index
import GoAtlas.Source.Scan
import GoAtlas.Source.TypeReader

/-!
# Reading a source file

A file is read line by line. A declaration starts at the beginning of a line;
only blocks of imports, bodies of structs and interfaces, one member per line,
and bodies of functions go on over more lines. A fault is reported on the line
that was being read when it showed.
-/

namespace GoAtlas.Source

open Text

/-- A fault and the line it showed on. -/
structure Located where
  line : Nat
  fault : Fault
deriving DecidableEq, Repr

/-- A fault of a piece of text, on a line. -/
def onLine (line : Nat) : Except Fault α → Except Located α
  | .ok value => .ok value
  | .error fault => .error { line, fault }

/-- What was read, the number of the last line that was used for it, and the
lines after that: at most `limit`. -/
structure Ahead (α : Type) (limit : Nat) where
  value : α
  number : Nat
  rest : List (List Char)
  most : rest.length ≤ limit

/-- What a line says once its comment is left out. -/
def content (line : List Char) : List Char :=
  trim (stripComment line)

/-! ## Imports -/

/-- An import, with or without a name of its own. -/
def importOf (spec : List Char) : Except Fault Import := do
  match ← tokens spec with
  | [.literal path] => return { localName := none, path }
  | [.word name, .literal path] => return { localName := some name, path }
  | _ => .error (.badImport (String.ofList spec))

/-- The imports of a block, up to its closing parenthesis. `number` is the line
before. -/
def readImports (number : Nat) :
    (lines : List (List Char)) → Except Located (Ahead (List Import) lines.length)
  | [] => .error { line := number + 1, fault := .unterminatedImports }
  | line :: rest =>
    let spec := content line
    if spec = [')'] then .ok ⟨[], number + 1, rest, Nat.le_succ _⟩
    else if spec.isEmpty || startsWith "//" spec then do
      let ⟨imports, number, rest, most⟩ ← readImports (number + 1) rest
      return ⟨imports, number, rest, Nat.le_succ_of_le most⟩
    else do
      let first ← onLine (number + 1) (importOf spec)
      let ⟨imports, number, rest, most⟩ ← readImports (number + 1) rest
      return ⟨first :: imports, number, rest, Nat.le_succ_of_le most⟩

/-! ## Bodies -/

/-- Further lines until the braces balance. -/
def untilBalanced (fault : Fault) (balance : Int) (number : Nat) (lines : List (List Char)) :
    Except Located (Ahead (List (List Char)) lines.length) :=
  if balance ≤ 0 then .ok ⟨[], number, lines, Nat.le_refl _⟩
  else
    match lines with
    | [] => .error { line := number + 1, fault }
    | line :: rest => do
      let text := content line
      let ⟨more, number, rest, most⟩ ←
        untilBalanced fault (balance + braceBalance text) (number + 1) rest
      return ⟨text :: more, number, rest, Nat.le_succ_of_le most⟩

/-- A member that goes on over more lines, as one line. -/
def folded (text : List Char) (more : List (List Char)) : List Char :=
  text ++ more.flatMap fun line => ';' :: ' ' :: line

/-- The members of a body, up to the line with its closing brace. `start` is the
line of the declaration and `number` the line before the members. -/
def readMembers (read : Nat → List Char → Except Fault α) (start number : Nat)
    (lines : List (List Char)) : Except Located (Ahead (List α) lines.length) :=
  match lines with
  | [] => .error { line := number + 1, fault := .unterminatedType start }
  | line :: rest =>
    let text := content line
    if text = ['\x7d'] then .ok ⟨[], number + 1, rest, Nat.le_succ _⟩
    else if text.isEmpty || startsWith "//" text then do
      let ⟨members, number, rest, most⟩ ← readMembers read start (number + 1) rest
      return ⟨members, number, rest, Nat.le_succ_of_le most⟩
    else do
      let ⟨more, last, rest, most⟩ ←
        untilBalanced (.unterminatedMember (number + 1)) (braceBalance text) (number + 1) rest
      let member ← onLine last (read (number + 1) (folded text more))
      let ⟨members, number, rest, _⟩ ← readMembers read start last rest
      return ⟨member :: members, number, rest, by simp only [List.length_cons]; omega⟩
termination_by lines.length

/-- A struct or an interface whose body is on the following lines. -/
def readBody (header : List Char) (number : Nat) (lines : List (List Char)) :
    Except Located (Ahead TypeTree lines.length) := do
  let header := String.ofList (trim (dropTrailing '\x7b' header))
  if header = "struct" then
    let ⟨fields, last, rest, most⟩ ← readMembers fieldsOf number number lines
    return ⟨.struct fields.flatten, last, rest, most⟩
  else if header = "interface" then
    let ⟨elements, last, rest, most⟩ ← readMembers elementOf number number lines
    return ⟨.interface elements, last, rest, most⟩
  else .error { line := number, fault := .unsupportedHeader header }

/-! ## Declarations -/

/-- The words before and after the first space; all of it and nothing when there
is none. -/
def splitWord (text : List Char) : List Char × List Char :=
  (splitFirst ' ' text).getD (text, [])

/-- The type of a declaration, whose body may be on the following lines. -/
def readDeclaredType (text : List Char) (number : Nat) (lines : List (List Char)) :
    Except Located (Ahead TypeTree lines.length) := do
  if braceBalance text > 0 then readBody text number lines
  else return ⟨← onLine number (typeOf number text), number, lines, Nat.le_refl _⟩

/-- A type declaration, after the word `type`. -/
def readTypeDeclaration (text : List Char) (number : Nat) (lines : List (List Char)) :
    Except Located (Ahead NamedTree lines.length) := do
  match splitFirst ' ' text with
  | none => .error { line := number, fault := .badTypeDeclaration (String.ofList text) }
  | some (name, expression) =>
    let (isAlias, expression) :=
      match dropStart? "=" (trim expression) with
      | some target => (true, trim target)
      | none => (false, trim expression)
    let ⟨type, last, rest, most⟩ ← readDeclaredType expression number lines
    return ⟨⟨String.ofList name, number, .type type isAlias⟩, last, rest, most⟩

/-- A function declaration, after the word `func`. Its body is passed over. -/
def readFuncDeclaration (text : List Char) (number : Nat) (lines : List (List Char)) :
    Except Located (Ahead NamedTree lines.length) := do
  let (header, body) := splitBody text
  let ⟨_, last, rest, most⟩ ←
    untilBalanced (.unterminatedFunc number) (braceBalance body) number lines
  let (receiver, name, signature) ← onLine last (funcOf number header)
  return ⟨⟨name, number, .func receiver signature⟩, last, rest, most⟩

/-- A variable, after the word `var`. It has a type and may have a value. -/
def varOf (line : Nat) (text : List Char) : Except Fault NamedTree := do
  let left :=
    match splitFirst '=' text with
    | some (left, _) => trim left
    | none => text
  match splitFirst ' ' left with
  | none => .error (.varWithoutType (String.ofList left))
  | some (name, type) => return ⟨String.ofList name, line, .var (← typeOf line type)⟩

/-- The type of a constant that is declared without one, by its value. -/
def untypedOf (value : List Char) : Untyped :=
  if startsWith "\"" value || startsWith "\x60" value then .string
  else if value = "true".toList ∨ value = "false".toList then .bool
  else if value.head?.any Char.isDigit && value.contains '.' then .float
  else .int

/-- A constant, after the word `const`. It has a value and may have a type. -/
def constOf (line : Nat) (text : List Char) : Except Fault NamedTree := do
  match splitFirst '=' text with
  | none => .error (.constWithoutValue (String.ofList text))
  | some (left, value) =>
    let untyped := untypedOf (trim value)
    match splitFirst ' ' (trim left) with
    | none => return ⟨String.ofList (trim left), line, .const none untyped⟩
    | some (name, type) =>
      return ⟨String.ofList name, line, .const (some (← typeOf line type)) untyped⟩

/-! ## Files -/

/-- What was read of a file so far. -/
structure Progress where
  /-- The name in the package clause and the line of the clause. -/
  package : Option (String × Nat) := none
  tree : SourceTree := {}

namespace Progress

def addImports (progress : Progress) (imports : List Import) : Progress :=
  { progress with tree := { progress.tree with imports := progress.tree.imports ++ imports } }

def addDeclaration (progress : Progress) (declaration : NamedTree) : Progress :=
  { progress with
    tree := { progress.tree with
      declarations := progress.tree.declarations ++ [declaration] } }

/-- A clause or a declaration that starts on line `number`, with the lines after
it. -/
def readItem (progress : Progress) (text : List Char) (number : Nat)
    (lines : List (List Char)) : Except Located (Ahead Progress lines.length) := do
  let (keyword, body) := splitWord text
  let body := trim body
  let one (declaration : Except Fault NamedTree) :
      Except Located (Ahead Progress lines.length) := do
    return ⟨progress.addDeclaration (← onLine number declaration), number, lines, Nat.le_refl _⟩
  match String.ofList keyword, progress.package with
  | "package", _ =>
    return ⟨{ progress with package := some (String.ofList body, number) }, number, lines,
      Nat.le_refl _⟩
  | _, none => .error { line := number, fault := .expectedPackage }
  | "import", _ =>
    if body = ['('] then
      let ⟨imports, last, rest, most⟩ ← readImports number lines
      return ⟨progress.addImports imports, last, rest, most⟩
    else
      let single ← onLine number (importOf body)
      return ⟨progress.addImports [single], number, lines, Nat.le_refl _⟩
  | "type", _ =>
    let ⟨declaration, last, rest, most⟩ ← readTypeDeclaration body number lines
    return ⟨progress.addDeclaration declaration, last, rest, most⟩
  | "func", _ =>
    let ⟨declaration, last, rest, most⟩ ← readFuncDeclaration body number lines
    return ⟨progress.addDeclaration declaration, last, rest, most⟩
  | "var", _ => one (varOf number body)
  | "const", _ => one (constOf number body)
  | keyword, _ => .error { line := number, fault := .unexpectedKeyword keyword }

/-- The lines after line `number`. -/
def readLines (progress : Progress) (number : Nat) (lines : List (List Char)) :
    Except Located Progress :=
  match lines with
  | [] => .ok progress
  | line :: rest =>
    let text := content line
    if text.isEmpty || startsWith "//" text || startsWith "/*" text then
      progress.readLines (number + 1) rest
    else do
      let ⟨progress, last, rest, _⟩ ← progress.readItem text (number + 1) rest
      progress.readLines last rest
termination_by lines.length

end Progress

/-- Why a file cannot be read. -/
inductive FileFault where
  | located (located : Located)
  | missingPackage
deriving DecidableEq, Repr

/-- The message for a fault of a file. -/
def FileFault.message (path : FilePath) : FileFault → String
  | .located found => path.text ++ ":" ++ toString found.line ++ ": " ++ found.fault.text
  | .missingPackage => path.text ++ ": missing package clause"

/-- A source file of a given path. The comment that ends right above the package
clause is the comment of the package. -/
def parse (path : FilePath) (text : String) : Except FileFault (SourceFile SourceTree) :=
  let lines := lines text.toList
  let comments := commentGroups lines
  match Progress.readLines {} 0 lines with
  | .error located => .error (.located located)
  | .ok progress =>
    match progress.package with
    | none => .error .missingPackage
    | some (packageName, line) =>
      .ok {
        path, packageName, comments
        doc := comments.find? fun group => group.stop + 1 == line
        imports := progress.tree.imports.map (·.path)
        unit := progress.tree }

/-- A file that is read holds what was read of its lines, and all their comments. -/
theorem readLines_of_parse {path : FilePath} {text : String} {file : SourceFile SourceTree}
    (read : parse path text = .ok file) :
    file.comments = commentGroups (lines text.toList) ∧
      file.imports = file.unit.imports.map (·.path) ∧
      ∃ progress, Progress.readLines {} 0 (lines text.toList) = .ok progress ∧
        file.unit = progress.tree := by
  unfold parse at read
  dsimp only at read
  split at read
  · cases read
  · next progress whole =>
    split at read
    · cases read
    · cases read
      exact ⟨rfl, rfl, progress, whole, rfl⟩

end GoAtlas.Source
