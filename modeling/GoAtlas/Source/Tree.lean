import GoAtlas.TypeExpr
import GoAtlas.Text.Quoted

/-!
# Source trees

What a source file says: its imports and its declarations, with the types as
they are written. Names are not resolved.
-/

namespace GoAtlas

mutual

/-- A type as it is written. -/
inductive TypeTree where
  | ident (name : String)
  /-- A name of an imported package. -/
  | qualified (package name : String)
  | pointer (elem : TypeTree)
  | slice (elem : TypeTree)
  | array (length : UInt64) (elem : TypeTree)
  | map (key elem : TypeTree)
  | chan (direction : Direction) (elem : TypeTree)
  | func (signature : SignatureTree)
  | struct (fields : List FieldTree)
  | interface (elements : List ElementTree)

/-- Parameters and results. A variadic list ends in a slice. -/
structure SignatureTree where
  params : List TypeTree
  results : List TypeTree
  variadic : Bool

/-- A field of a struct. An embedded field carries the name of its type. -/
structure FieldTree where
  name : String
  embedded : Bool
  tag : String
  type : TypeTree
  line : Nat

/-- An element of an interface: a method or an embedded interface. -/
inductive ElementTree where
  | method (name : String) (signature : SignatureTree) (line : Nat)
  | embedded (type : TypeTree)

end

instance : Inhabited TypeTree := ⟨.ident ""⟩

instance : Inhabited SignatureTree := ⟨⟨[], [], false⟩⟩

instance : Inhabited FieldTree := ⟨⟨"", false, "", default, 0⟩⟩

instance : Inhabited ElementTree := ⟨.embedded default⟩

/-- The type of a constant that is declared without one. -/
inductive Untyped where
  | string
  | bool
  | float
  | int
deriving DecidableEq, Repr

/-- The spelling of such a type. -/
def Untyped.text : Untyped → String
  | .string => "untyped string"
  | .bool => "untyped bool"
  | .float => "untyped float"
  | .int => "untyped int"

/-- What a declaration declares. -/
inductive DeclarationTree where
  | type (type : TypeTree) (isAlias : Bool)
  | func (receiver : Option TypeTree) (signature : SignatureTree)
  | var (type : TypeTree)
  | const (type : Option TypeTree) (untyped : Untyped)

/-- A declared name with the line of its declaration. -/
structure NamedTree where
  name : String
  line : Nat
  declaration : DeclarationTree

/-- An import, with the name the file gives it. -/
structure Import where
  localName : Option String
  path : String
deriving DecidableEq, Repr

/-- The imports and the declarations of a file. -/
structure SourceTree where
  imports : List Import := []
  declarations : List NamedTree := []

/-! ## Trees in messages -/

def Direction.word : Direction → String
  | .both => "Both"
  | .send => "Send"
  | .receive => "Recv"

/-- The word for a truth value. -/
def boolWord (value : Bool) : String :=
  if value then "true" else "false"

mutual

/-- A type tree as messages show it. -/
def TypeTree.text : TypeTree → String
  | .ident name => "Ident(" ++ Text.quoted name ++ ")"
  | .qualified package name =>
    "Qualified(" ++ Text.quoted package ++ ", " ++ Text.quoted name ++ ")"
  | .pointer elem => "Pointer(" ++ elem.text ++ ")"
  | .slice elem => "Slice(" ++ elem.text ++ ")"
  | .array length elem => "Array(" ++ toString length.toNat ++ ", " ++ elem.text ++ ")"
  | .map key elem => "Map(" ++ key.text ++ ", " ++ elem.text ++ ")"
  | .chan direction elem => "Chan(" ++ direction.word ++ ", " ++ elem.text ++ ")"
  | .func signature => "Func(" ++ signature.text ++ ")"
  | .struct fields => "Struct([" ++ fieldsText fields ++ "])"
  | .interface elements => "Interface([" ++ elementsText elements ++ "])"

def typesText : List TypeTree → String
  | [] => ""
  | [single] => single.text
  | first :: rest => first.text ++ ", " ++ typesText rest

def SignatureTree.text : SignatureTree → String
  | ⟨params, results, variadic⟩ =>
    "AstSignature \x7b params: [" ++ typesText params ++ "], results: [" ++ typesText results ++
      "], variadic: " ++ boolWord variadic ++ " \x7d"

def FieldTree.text : FieldTree → String
  | ⟨name, embedded, tag, type, line⟩ =>
    "AstField \x7b name: " ++ Text.quoted name ++ ", embedded: " ++ boolWord embedded ++
      ", tag: " ++ Text.quoted tag ++ ", ty: " ++ type.text ++ ", line: " ++ toString line ++
      " \x7d"

def fieldsText : List FieldTree → String
  | [] => ""
  | [single] => single.text
  | first :: rest => first.text ++ ", " ++ fieldsText rest

def ElementTree.text : ElementTree → String
  | .method name signature line =>
    "Method \x7b name: " ++ Text.quoted name ++ ", sig: " ++ signature.text ++ ", line: " ++
      toString line ++ " \x7d"
  | .embedded type => "Embedded(" ++ type.text ++ ")"

def elementsText : List ElementTree → String
  | [] => ""
  | [single] => single.text
  | first :: rest => first.text ++ ", " ++ elementsText rest

end

end GoAtlas
