/-!
# Names

A name identifies a node of the atlas: the package that declares it, the local
name, and for sources whose directory and package path differ the location of
the definition. Primitives and anonymous types live in the package with the
empty path, and their local name is the full description of the type.
-/

namespace GoAtlas

/-- A local name within a package. -/
structure Name where
  package : String
  name : String
  path : Option String := none
deriving DecidableEq, Repr, Inhabited

namespace Name

/-- A name in the package with the empty path. -/
def bare (name : String) : Name :=
  { package := "", name }

/-- The name lives in the package with the empty path. -/
def isBare (name : Name) : Bool :=
  name.package.isEmpty

/-- A name qualified by its package; a bare name stands alone. -/
def text (name : Name) : String :=
  if name.package.isEmpty then name.name else name.package ++ "." ++ name.name

/-- An absent location comes before every location. -/
def pathBefore : Option String → Option String → Bool
  | none, _ => true
  | some _, none => false
  | some a, some b => decide (a ≤ b)

/-- Names are ordered by package, then by local name, then by location. -/
def before (a b : Name) : Bool :=
  if a.package ≠ b.package then a.package < b.package
  else if a.name ≠ b.name then a.name < b.name
  else pathBefore a.path b.path

/-- The names of a list in order. -/
def sort (names : List Name) : List Name :=
  names.mergeSort before

end Name

end GoAtlas
