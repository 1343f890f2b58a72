import GoAtlas.Check.Scope

/-!
# Resolving written types

A written type becomes a type expression: names are looked up, aliases are
replaced by what they stand for, and an interface lists its complete method set.
A tree is resolved in the scope of the file it is written in.

Resolving follows the tree. Two names lead to another tree, the alias of a type
and an embedded interface of the package; how they are entered is a parameter.
Nothing stops a type that leads to itself, so resolving it does not end; it is
followed as deep as the declared types allow, and marked there.
-/

namespace GoAtlas.Check

/-- How declared types are entered. -/
structure Entry where
  /-- The type an alias stands for. -/
  ofAlias : LocalType → Reported TypeExpr
  /-- The method set of a declared interface, given its name. -/
  ofInterface : TypeExpr → FileScope → List ElementTree → Reported (List MethodExpr)

section

variable (scope : Scope) (entry : Entry)

/-- A name of the package, or a predeclared one. -/
def resolveIdent (file : FileScope) (name : String) : Reported TypeExpr :=
  if basicNames.contains name then return .basic name
  else
    match scope.types.get? name with
    | some found => if found.isAlias then entry.ofAlias found else return .named scope.package name
    | none =>
      if name = "error" then return errorType
      else if name = "any" then return .interface []
      else do
        .complain (.undefined file.path name)
        return invalid

/-- The type a checked package declares under a name. -/
def declaredType? (checked : Checked) (name : String) : Option TypeExpr :=
  checked.declarations.findSome? fun declaration =>
    match declaration.declared with
    | .type type => if declaration.name = name then some type else none
    | _ => none

/-- A name of an imported package. An import that leads nowhere was complained
about before. -/
def resolveQualified (file : FileScope) (package name : String) : Reported TypeExpr :=
  match file.imports.get? package with
  | none => do
    .complain (.undefined file.path package)
    return invalid
  | some literal =>
    match scope.imported? literal with
    | none => return invalid
    | some checked =>
      match declaredType? checked name with
      | some type => return type
      | none => do
        .complain (.undefined file.path (package ++ "." ++ name))
        return invalid

/-- A package some file imports, by its path. -/
def importedByPath? (path : String) : Option Checked :=
  (scope.files.flatMap fun file => file.imports.values.filterMap scope.imported?).find?
    fun checked => checked.path == path

/-- The methods of an embedded type, which has to be an interface. -/
def embeddedMethods (file : FileScope) (type : TypeExpr) : Reported (List MethodExpr) :=
  let refuse (text : String) : Reported (List MethodExpr) := do
    .complain (.notInterface file.path text)
    return []
  match type with
  | .interface methods => return methods
  | .named package name =>
    if package.isEmpty ∧ name = "error" then return errorMethods
    else if package = scope.package then
      match scope.types.get? name with
      | some ⟨.interface elements, _, file⟩ =>
        entry.ofInterface (.named scope.package name) file elements
      | _ => refuse name
    else
      match (importedByPath? scope package).bind fun checked => checked.definitions.get? name with
      | some ⟨_, .interface methods, _⟩ => return methods
      | _ => refuse (package ++ "." ++ name)
  | .other _ => return []
  | type => refuse type.describe

/-- An inherited method keeps the interface that declares it as its receiver. -/
def inherited (owner : Option TypeExpr) (method : MethodExpr) : MethodExpr :=
  { method with
    signature := { method.signature with receiver := method.signature.receiver.or owner } }

/-- A method set with the methods of an embedded interface that it does not have
yet. -/
def inherit (owner : Option TypeExpr) (set : Table MethodExpr) (methods : List MethodExpr) :
    Table MethodExpr :=
  methods.foldl (fun set method => set.insertIfNew method.name (inherited owner method)) set

mutual

/-- A written type in the scope of a file. -/
def resolve (file : FileScope) : TypeTree → Reported TypeExpr
  | .ident name => resolveIdent scope entry file name
  | .qualified package name => resolveQualified scope file package name
  | .pointer elem => return .pointer (← resolve file elem)
  | .slice elem => return .slice (← resolve file elem)
  | .array length elem => return .array length (← resolve file elem)
  | .map key elem => do
    let key ← resolve file key
    let elem ← resolve file elem
    return .map key elem
  | .chan direction elem => return .chan direction (← resolve file elem)
  | .func signature => return .func (← resolveSignature file none signature)
  | .struct fields => return .struct (← resolveFields file fields)
  | .interface elements => return .interface (← resolveElements file none elements ∅).values

def resolveAll (file : FileScope) : List TypeTree → Reported (List TypeExpr)
  | [] => return []
  | first :: rest => do
    let first ← resolve file first
    let rest ← resolveAll file rest
    return first :: rest

def resolveSignature (file : FileScope) (receiver : Option TypeExpr) :
    SignatureTree → Reported SignatureExpr
  | ⟨params, results, variadic⟩ => do
    let params ← resolveAll file params
    let results ← resolveAll file results
    return { receiver, params, results, variadic }

def resolveFields (file : FileScope) : List FieldTree → Reported (List FieldExpr)
  | [] => return []
  | ⟨name, embedded, tag, type, line⟩ :: rest => do
    let type ← resolve file type
    let rest ← resolveFields file rest
    return { name, embedded, tag, type, pos := some { file := file.path, line } } :: rest

/-- The method set of an interface, added to `set`. A method of the interface
itself wins over an inherited one, wherever it stands. -/
def resolveElements (file : FileScope) (owner : Option TypeExpr) :
    List ElementTree → Table MethodExpr → Reported (Table MethodExpr)
  | [], set => return set
  | .method name signature line :: rest, set => do
    let signature ← resolveSignature file owner signature
    let method : MethodExpr := { name, pos := some { file := file.path, line }, signature }
    resolveElements file owner rest (set.insert name method)
  | .embedded type :: rest, set => do
    let type ← resolve file type
    let methods ← embeddedMethods scope entry file type
    resolveElements file owner rest (inherit owner set methods)

end

end

/-- Declared types entered at most `depth` deep, with a mark at those below. -/
def entryAt (scope : Scope) : Nat → Entry
  | 0 =>
    { ofAlias := fun _ => do
        .complain .unending
        return invalid
      ofInterface := fun _ _ _ => do
        .complain .unending
        return [] }
  | depth + 1 =>
    { ofAlias := fun found => resolve scope (entryAt scope depth) found.file found.tree
      ofInterface := fun owner file elements => do
        return (← resolveElements scope (entryAt scope depth) file (some owner) elements ∅).values }

/-- A declared type that does not lead to itself is entered at most once as an
alias and once as an interface on the way down, so only ways without end reach
the mark. -/
def Scope.entry (scope : Scope) : Entry :=
  entryAt scope (2 * scope.types.entries.length + 1)

end GoAtlas.Check
