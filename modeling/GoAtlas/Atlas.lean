import GoAtlas.Node
import GoAtlas.Primitive
import GoAtlas.FilePath

/-!
# The atlas

An atlas holds the packages of one run and the nodes of its type graph. Asking
for a name gives its node, and makes a marker when there is none; a marker is
filled once, by `resolve` or `declare`, and never replaced or removed. All
spellings of a registered primitive lead to one node.
-/

namespace GoAtlas

/-- What is known of one package. -/
structure Package where
  path : String
  /-- The directory the package was loaded from. -/
  sourcePath : Option FilePath := none
  /-- The name in the package clause. -/
  name : String := ""
  /-- The package comment of `doc.go`. -/
  docComments : List String := []
  /-- Every comment of `doc.go`. -/
  comments : List String := []
  types : Table NodeId := ∅
  functions : Table NodeId := ∅
  vars : Table NodeId := ∅
  consts : Table NodeId := ∅
  /-- Paths of the imported packages. -/
  imports : NameSet := ∅
deriving DecidableEq

/-- The sorts of top-level declarations that are not types. -/
inductive DeclarationSort where
  | function
  | variable
  | constant
deriving DecidableEq, Repr

namespace Package

/-- A package that is mentioned and not described. -/
def marker (path : String) : Package :=
  { path }

/-- The table of one sort of declarations. -/
def declarations (package : Package) : DeclarationSort → Table NodeId
  | .function => package.functions
  | .variable => package.vars
  | .constant => package.consts

/-- The package with one more declared name. -/
def declareAs (package : Package) (name : String) (id : NodeId) : DeclarationSort → Package
  | .function => { package with functions := package.functions.insert name id }
  | .variable => { package with vars := package.vars.insert name id }
  | .constant => { package with consts := package.consts.insert name id }

end Package

/-- The packages of a run by path, and all nodes. -/
structure Atlas where
  packages : Table Package := ∅
  nodes : Array Node := #[]
deriving DecidableEq

namespace Atlas

instance : Inhabited Atlas := ⟨{}⟩

/-- The node at a place. -/
def node? (atlas : Atlas) (id : NodeId) : Option Node :=
  atlas.nodes[id]?

/-- The record of a package, a marker when there is none. -/
def package (atlas : Atlas) (path : String) : Package :=
  (atlas.packages.get? path).getD (.marker path)

/-- The atlas with the record of a package replaced by its image. -/
def updatePackage (atlas : Atlas) (path : String) (f : Package → Package) : Atlas :=
  { atlas with packages := atlas.packages.insert path (f (atlas.package path)) }

/-- The atlas with a record for the package. -/
def addPackage (atlas : Atlas) (path : String) : Atlas :=
  atlas.updatePackage path id

/-- The atlas with the node at a place replaced by its image. -/
def updateNode (atlas : Atlas) (id : NodeId) (f : Node → Node) : Atlas :=
  { atlas with nodes := atlas.nodes.modify id f }

/-- The place the next node will have. -/
def nodeCount (atlas : Atlas) : Nat :=
  atlas.nodes.size

/-- The node a type name leads to. -/
def findType? (atlas : Atlas) (name : Name) : Option NodeId :=
  (atlas.packages.get? name.package).bind fun package => package.types.get? name.name

/-- A type name bound to a node. -/
def bindType (atlas : Atlas) (name : Name) (id : NodeId) : Atlas :=
  atlas.updatePackage name.package fun package =>
    { package with types := package.types.insert name.name id }

/-- A new node, bound to a type name. -/
def addType (atlas : Atlas) (name : Name) (node : Node) : NodeId × Atlas :=
  (atlas.nodeCount,
    { atlas with nodes := atlas.nodes.push node }.bindType name atlas.nodeCount)

/-- The node of a registered primitive, by the spelling of its node. -/
def primitiveNode (atlas : Atlas) (canonical : String) : NodeId × Atlas :=
  match atlas.findType? (.bare canonical) with
  | some id => (id, atlas)
  | none => atlas.addType (.bare canonical) { name := .bare canonical, kind := .primitive }

/-- The registered primitive a name spells. -/
def primitive? (name : Name) : Option String :=
  if name.isBare then Primitive.canonical? name.name else none

/-- The node of a type name, a new marker when there is none. A registered
primitive is never a marker. -/
def typeNode (atlas : Atlas) (name : Name) : NodeId × Atlas :=
  match atlas.findType? name with
  | some id => (id, atlas)
  | none =>
    match primitive? name with
    | some canonical =>
      let (id, atlas) := atlas.primitiveNode canonical
      (id, if canonical = name.name then atlas else atlas.bindType (.bare name.name) id)
    | none => atlas.addType name (.marker name)

/-- The node of a declared name, a new unfinished declaration when there is
none. -/
def declarationNode (atlas : Atlas) (sort : DeclarationSort) (name : Name) : NodeId × Atlas :=
  match (atlas.packages.get? name.package).bind fun package =>
      (package.declarations sort).get? name.name with
  | some id => (id, atlas)
  | none =>
    let id := atlas.nodeCount
    let node : Node := { name, kind := .declaration none }
    (id, { atlas with nodes := atlas.nodes.push node }.updatePackage name.package fun package =>
      package.declareAs name.name id sort)

/-- The node may still be given a kind. -/
def isMarker (atlas : Atlas) (id : NodeId) : Bool :=
  (atlas.node? id).any fun node => !node.isResolved

/-- A marker given its kind. The first kind stays: any other node is left as it
is. -/
def resolve (atlas : Atlas) (id : NodeId) (kind : Kind) : Atlas :=
  if atlas.isMarker id then atlas.updateNode id fun node => { node with kind } else atlas

/-- The node is a declaration whose type is not known yet. -/
def isUndeclared (atlas : Atlas) (id : NodeId) : Bool :=
  (atlas.node? id).any fun node => node.kind == .declaration none

/-- An unfinished declaration given its type; any other node is left as it is. -/
def declare (atlas : Atlas) (id underlying : NodeId) : Atlas :=
  if atlas.isUndeclared id then
    atlas.updateNode id fun node => { node with kind := .declaration (some underlying) }
  else atlas

/-- One import edge, with records at both ends. -/
def addImport (atlas : Atlas) (path imported : String) : Atlas :=
  (atlas.addPackage imported).updatePackage path fun package =>
    { package with imports := NameSet.add package.imports imported }

/-- Import edges from one package. -/
def addImports (atlas : Atlas) (path : String) (imports : List String) : Atlas :=
  imports.foldl (fun atlas imported => atlas.addImport path imported) atlas

/-- The records of the packages a package imports, in path order. -/
def importsOf (atlas : Atlas) (path : String) : List Package :=
  match atlas.packages.get? path with
  | some package => (NameSet.toList package.imports).filterMap atlas.packages.get?
  | none => []

/-- The nodes of a package's types, in name order; nothing when a name leads
nowhere. -/
def typesOf? (atlas : Atlas) (path : String) : Option (List Node) :=
  match atlas.packages.get? path with
  | some package => package.types.values.mapM atlas.node?
  | none => some []

/-- A field shown as its name and the name of its type. -/
def memberText? (atlas : Atlas) (member : Member) : Option String :=
  (atlas.node? member.type).map fun node => member.name ++ " " ++ node.text

end Atlas

end GoAtlas
