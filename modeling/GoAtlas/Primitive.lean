/-!
# Registered primitives

The primitive types that have a node of their own, by spelling. Several
spellings share one node: `int8`, `uint8` and `byte` are all `byte`.
-/

namespace GoAtlas.Primitive

/-- Each registered spelling with the spelling of its node. -/
def registered : List (String × String) :=
  [("bool", "bool"), ("string", "string"), ("int", "int"), ("int64", "int64"),
    ("int32", "int32"), ("int16", "int16"), ("int8", "byte"), ("uint", "uint"),
    ("uint64", "uint64"), ("uint32", "uint32"), ("uint16", "uint16"), ("uint8", "byte"),
    ("uintptr", "uintptr"), ("byte", "byte"), ("float", "float"), ("float64", "float64"),
    ("float32", "float32")]

/-- The spelling of the node a registered spelling leads to. -/
def canonical? (spelling : String) : Option String :=
  registered.lookup spelling

/-- The spelling is registered. -/
def isRegistered (spelling : String) : Bool :=
  (canonical? spelling).isSome

end GoAtlas.Primitive
