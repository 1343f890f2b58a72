import GoAtlas.Name
import GoAtlas.Position

/-!
# Type expressions

What a checker reports of a type: its structure, with the named types it
mentions left as references. A definition gives a named type its structure and
its methods.
-/

namespace GoAtlas

/-- The ways values move through a channel. -/
inductive Direction where
  | both
  | send
  | receive
deriving DecidableEq, Repr

mutual

/-- The structure of a type. -/
inductive TypeExpr where
  /-- A primitive by its spelling. -/
  | basic (name : String)
  /-- A reference to a definition. Predeclared types have the empty package. -/
  | named (package name : String)
  | pointer (elem : TypeExpr)
  | slice (elem : TypeExpr)
  | array (length : UInt64) (elem : TypeExpr)
  | chan (direction : Direction) (elem : TypeExpr)
  | map (key elem : TypeExpr)
  | struct (fields : List FieldExpr)
  | func (signature : SignatureExpr)
  /-- The complete method set. -/
  | interface (methods : List MethodExpr)
  /-- Anything else, by a description. -/
  | other (description : String)

/-- A field of a struct type. -/
structure FieldExpr where
  name : String
  embedded : Bool
  tag : String
  type : TypeExpr
  pos : Option Position

/-- The receiver, parameters and results of a function. A variadic function
takes its last parameter as a slice. -/
structure SignatureExpr where
  receiver : Option TypeExpr
  params : List TypeExpr
  results : List TypeExpr
  variadic : Bool

/-- A method, declared on a type or required by an interface. -/
structure MethodExpr where
  name : String
  pos : Option Position
  signature : SignatureExpr

end

instance : Inhabited TypeExpr := ⟨.other ""⟩

instance : Inhabited SignatureExpr := ⟨⟨none, [], [], false⟩⟩

instance : Inhabited FieldExpr := ⟨⟨"", false, "", default, none⟩⟩

instance : Inhabited MethodExpr := ⟨⟨"", none, default⟩⟩

/-- The structure of a named type and the methods declared on it. -/
structure Definition where
  name : String
  underlying : TypeExpr
  methods : List MethodExpr := []
deriving Inhabited

/-- The definitions a run knows, each with its package. Of two with one name the
earlier one counts. -/
structure Definitions where
  entries : List (String × Definition)

/-- The definition of a named type. -/
def Definitions.find? (definitions : Definitions) (package name : String) :
    Option Definition :=
  (definitions.entries.find? fun entry => entry.1 == package && entry.2.name == name).map (·.2)

end GoAtlas
