import GoAtlas.Name
import GoAtlas.Table

/-!
# Nodes of the type graph

A node stands for one named thing: a type, a method, or a top-level function,
variable or constant. Nodes refer to each other by their place in the atlas, so
the graph may have cycles. A node starts as a marker, of kind `unknown`, and is
given its kind once.
-/

namespace GoAtlas

/-- The place of a node in the atlas. -/
abbrev NodeId := Nat

/-- A function's receiver, parameters and results, as nodes. -/
structure Signature where
  /-- The type a method is declared on. -/
  receiver : Option NodeId
  parameters : List NodeId
  results : List NodeId
  /-- The last parameter takes any number of arguments. -/
  variadic : Bool
  comments : List String
deriving DecidableEq, Repr

/-- A field of a struct. An embedded field carries the name of its type. -/
structure Member where
  name : String
  embedded : Bool
  tag : String
  comments : List String
  type : NodeId
deriving DecidableEq, Repr

/-- What a node is, with the nodes it is made of. -/
inductive Kind where
  /-- A marker: mentioned and not described yet. -/
  | unknown
  /-- A registered primitive. -/
  | primitive
  | struct (members : List Member)
  | map (key elem : NodeId)
  | slice (elem : NodeId)
  | array (elem : NodeId)
  | pointer (elem : NodeId)
  | chan (elem : NodeId)
  | func (signature : Signature)
  /-- The method set is among the node's methods. -/
  | interface
  /-- A named type over a named type, a primitive, a map or a slice. -/
  | aliasOf (underlying : NodeId)
  /-- A top-level function, variable or constant, with its type once known. -/
  | declaration (underlying : Option NodeId)
  /-- A type the graph has no kind for. -/
  | unsupported
deriving DecidableEq, Repr, Inhabited

namespace Kind

/-- The word for a kind. -/
def word : Kind → String
  | .unknown => "Unknown"
  | .primitive => "Builtin"
  | .struct _ => "Struct"
  | .map _ _ => "Map"
  | .slice _ => "Slice"
  | .array _ => "Array"
  | .pointer _ => "Pointer"
  | .chan _ => "Chan"
  | .func _ => "Func"
  | .interface => "Interface"
  | .aliasOf _ => "Alias"
  | .declaration _ => "DeclarationOf"
  | .unsupported => "Unsupported"

/-- The kind of a marker. -/
def isUnknown : Kind → Bool
  | .unknown => true
  | _ => false

/-- The node of the elements of a container. -/
def elem? : Kind → Option NodeId
  | .map _ elem | .slice elem | .array elem | .pointer elem | .chan elem => some elem
  | _ => none

/-- The node of the keys of a map. -/
def key? : Kind → Option NodeId
  | .map key _ => some key
  | _ => none

/-- The node of the type an alias or a declaration stands for. -/
def underlying? : Kind → Option NodeId
  | .aliasOf underlying => some underlying
  | .declaration underlying => underlying
  | _ => none

/-- The fields of a struct. -/
def members : Kind → List Member
  | .struct members => members
  | _ => []

/-- The signature of a function. -/
def signature? : Kind → Option Signature
  | .func signature => some signature
  | _ => none

/-- The kind of a struct. -/
def isStruct : Kind → Bool
  | .struct _ => true
  | _ => false

/-- The kind of an interface. -/
def isInterface : Kind → Bool
  | .interface => true
  | _ => false

end Kind

/-- A named thing of the graph. -/
structure Node where
  name : Name
  kind : Kind
  /-- The comment right above the definition, line by line. -/
  comments : List String := []
  /-- The comment one blank line above that. -/
  earlierComments : List String := []
  /-- The method set of an interface, the declared methods of any other type. -/
  methods : Table NodeId := ∅
deriving DecidableEq

namespace Node

/-- A node that is mentioned and not described yet. -/
def marker (name : Name) : Node :=
  { name, kind := .unknown }

/-- The node is no marker any more. -/
def isResolved (node : Node) : Bool :=
  !node.kind.isUnknown

/-- A node is shown by its name. -/
def text (node : Node) : String :=
  node.name.text

end Node

end GoAtlas
