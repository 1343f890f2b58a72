import GoAtlas.Check.Resolve
import GoAtlas.ImportPath

/-!
# Checking a package

The files of a package are checked together. All complaints make one message;
what could be resolved is reported along with it. A type that leads to itself,
as an alias or as an embedded interface, keeps the check from ending.
-/

namespace GoAtlas.Check

/-- The imports of a file by the names they have in it: the name the file gives,
or else the name of the package, or else the last part of the path. Of two
imports with one name the later one counts. -/
def fileScope (imported? : String → Option Checked) (file : SourceFile SourceTree) :
    Reported FileScope := do
  let complaints := file.unit.imports.filterMap fun import_ =>
    if (imported? import_.path).isSome then none
    else some (.missingImport file.path import_.path)
  let local_ (import_ : Import) : String :=
    (import_.localName.or ((imported? import_.path).map (·.name))).getD
      (ImportPath.lastSegment import_.path)
  let imports := Table.ofList (file.unit.imports.map fun import_ => (local_ import_, import_.path))
  { value := { path := file.path, imports }, complaints }

/-- The scopes of all files. The files have to agree on the package name. -/
def fileScopes (imported? : String → Option Checked) (package first : String) :
    List (SourceFile SourceTree) → Reported (List FileScope)
  | [] => return []
  | file :: rest => do
    if file.packageName ≠ first then
      .complain (.packageNames first file.packageName package)
    let scope ← fileScope imported? file
    let scopes ← fileScopes imported? package first rest
    return scope :: scopes

/-- The types a file declares, added to those of the files before. Of two with
one name the later one counts. -/
def localTypes (file : FileScope) :
    List NamedTree → Table LocalType → Reported (Table LocalType)
  | [], types => return types
  | ⟨name, _, .type tree isAlias⟩ :: rest, types => do
    if types.contains name then .complain (.redeclared name)
    localTypes file rest (types.insert name { tree, isAlias, file })
  | _ :: rest, types => localTypes file rest types

/-- Each file with its scope. -/
abbrev ScopedFiles := List (FileScope × List NamedTree)

/-- The types all files declare. -/
def packageTypes : ScopedFiles → Table LocalType → Reported (Table LocalType)
  | [], types => return types
  | (file, declarations) :: rest, types => do
    packageTypes rest (← localTypes file declarations types)

/-- The top-level declaration a tree stands for. A method is none. -/
def declarationOf (scope : Scope) (file : FileScope) (tree : NamedTree) :
    Reported (Option Declaration) := do
  let found (declared : Declared) : Option Declaration :=
    some { name := tree.name, pos := some { file := file.path, line := tree.line }, declared }
  match tree.declaration with
  | .type type isAlias =>
    if isAlias then return found (.type (← resolve scope scope.entry file type))
    else return found (.type (.named scope.package tree.name))
  | .func none signature =>
    return found (.func (← resolveSignature scope scope.entry file none signature))
  | .func (some _) _ => return none
  | .var type => return found (.var (← resolve scope scope.entry file type))
  | .const (some type) _ => return found (.const (← resolve scope scope.entry file type))
  | .const none untyped => return found (.const (.basic untyped.text))

/-- The top-level declarations of one file. -/
def fileDeclarations (scope : Scope) (file : FileScope) :
    List NamedTree → Reported (List Declaration)
  | [] => return []
  | tree :: rest => do
    let first ← declarationOf scope file tree
    let rest ← fileDeclarations scope file rest
    return first.toList ++ rest

/-- The top-level declarations of all files. -/
def declarations (scope : Scope) : ScopedFiles → Reported (List Declaration)
  | [] => return []
  | (file, trees) :: rest => do
    let first ← fileDeclarations scope file trees
    let rest ← declarations scope rest
    return first ++ rest

/-- The structure of a declared type. The methods of an interface have it as
their receiver. -/
def underlying (scope : Scope) (name : String) (declared : LocalType) : Reported TypeExpr :=
  match declared.tree with
  | .interface elements => do
    let owner := TypeExpr.named scope.package name
    return .interface
      (← resolveElements scope scope.entry declared.file (some owner) elements ∅).values
  | tree => resolve scope scope.entry declared.file tree

/-- The definitions of the declared types, in name order, still without methods.
An alias has none. -/
def definitions (scope : Scope) :
    List (String × LocalType) → Reported (List (String × Definition))
  | [] => return []
  | (name, declared) :: rest => do
    if declared.isAlias then definitions scope rest
    else
      let underlying ← underlying scope name declared
      let rest ← definitions scope rest
      return (name, { name, underlying }) :: rest

/-- The type a method is declared on: `T` for both `T` and `*T`. -/
def receiverName? : TypeTree → Option String
  | .ident name | .pointer (.ident name) => some name
  | _ => none

/-- The method a tree stands for, with the name of its type, which has to be
declared in the package and no alias. -/
def methodOf (scope : Scope) (file : FileScope) (tree : NamedTree) :
    Reported (Option (String × MethodExpr)) :=
  match tree.declaration with
  | .func (some receiver) signature =>
    match (receiverName? receiver).filter fun name =>
        (scope.types.get? name).any fun declared => !declared.isAlias with
    | none => do
      .complain (.badReceiver file.path tree.name receiver)
      return none
    | some name => do
      let receiver ← resolve scope scope.entry file receiver
      let signature ← resolveSignature scope scope.entry file (some receiver) signature
      return some (name,
        { name := tree.name, pos := some { file := file.path, line := tree.line }, signature })
  | _ => return none

/-- The methods of one file. -/
def fileMethods (scope : Scope) (file : FileScope) :
    List NamedTree → Reported (List (String × MethodExpr))
  | [] => return []
  | tree :: rest => do
    let first ← methodOf scope file tree
    let rest ← fileMethods scope file rest
    return first.toList ++ rest

/-- The methods of all files. -/
def methods (scope : Scope) : ScopedFiles → Reported (List (String × MethodExpr))
  | [] => return []
  | (file, trees) :: rest => do
    let first ← fileMethods scope file trees
    let rest ← methods scope rest
    return first ++ rest

/-- A definition with the methods declared on it, in name order. -/
def withMethods (methods : List (String × MethodExpr)) (definition : Definition) : Definition :=
  { definition with
    methods := ((methods.filter fun method => method.1 == definition.name).map (·.2)).mergeSort
      fun a b => decide (a.name ≤ b.name) }

/-- The scope of a package, from its files. -/
def scopeOf (package first : String) (imported? : String → Option Checked)
    (files : List (SourceFile SourceTree)) : Reported (Scope × ScopedFiles) := do
  let scopes ← fileScopes imported? package first files
  let inFiles := scopes.zip (files.map fun file => file.unit.declarations)
  let types ← packageTypes inFiles ∅
  return ({ package, imported?, types, files := scopes }, inFiles)

/-- What is resolved of a package, with all complaints. -/
def resolved (package first : String) (imported? : String → Option Checked)
    (files : List (SourceFile SourceTree)) : Reported Checked := do
  let (scope, inFiles) ← scopeOf package first imported? files
  let declarations ← declarations scope inFiles
  let definitions ← definitions scope scope.types.entries
  let methods ← methods scope inFiles
  return {
    path := package, name := first, declarations
    definitions := (Table.ofList definitions).map (withMethods methods) }

/-- The check of a package, where `imported?` gives the packages its imports lead
to. -/
def package (path : String) (files : List (SourceFile SourceTree))
    (imported? : String → Option Checked) : Except CheckFault Checked :=
  match files with
  | [] => .error (.errors ("no files for " ++ path) none)
  | first :: _ =>
    let reported := resolved path first.packageName imported? files
    if reported.complaints.isEmpty then .ok reported.value
    else if reported.unending then .error .unending
    else .error (.errors (String.intercalate "; " (reported.complaints.map Complaint.text))
      (some reported.value))

end GoAtlas.Check
