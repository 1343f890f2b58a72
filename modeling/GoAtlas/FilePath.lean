import GoAtlas.Text.Lines

/-!
# File paths

A path is kept as it was written and compared by its components: repeated
slashes, a slash at the end and `.` components within make no difference, a
leading `.` and every `..` do.
-/

namespace GoAtlas

/-- One step of a path. -/
inductive Component where
  /-- The slash an absolute path starts with. -/
  | root
  /-- The `.` a relative path starts with. -/
  | current
  /-- A `..`. -/
  | parent
  /-- The name of a directory or a file. -/
  | name (text : String)
deriving DecidableEq, Repr

/-- A path as it was written. -/
structure FilePath where
  text : String
deriving DecidableEq, Repr, Inhabited

namespace Component

/-- A component as it is written between slashes. -/
def text : Component → String
  | .root => "/"
  | .current => "."
  | .parent => ".."
  | .name text => text

/-- The component a piece between slashes stands for. Empty pieces and `.` stand
for none. -/
def ofPiece (piece : List Char) : Option Component :=
  if piece = [] ∨ piece = ['.'] then none
  else if piece = ['.', '.'] then some .parent
  else some (.name (String.ofList piece))

/-- The name, when the component is one. -/
def name? : Component → Option String
  | .name text => some text
  | _ => none

end Component

namespace FilePath

/-- The path starts at the root. -/
def isAbsolute (path : FilePath) : Bool :=
  path.text.toList.head? == some '/'

/-- The components of a path. -/
def components (path : FilePath) : List Component :=
  let pieces := path.text.toList.splitOn '/'
  let start :=
    if path.isAbsolute then [Component.root]
    else if pieces.head? = some ['.'] then [Component.current]
    else []
  start ++ pieces.filterMap Component.ofPiece

/-- Two paths with the same components lead to the same place. -/
def same (a b : FilePath) : Bool :=
  a.components == b.components

/-- The path written with single slashes between the given components. -/
def ofComponents : List Component → FilePath
  | .root :: rest => ⟨"/" ++ String.intercalate "/" (rest.map Component.text)⟩
  | components => ⟨String.intercalate "/" (components.map Component.text)⟩

/-- The path `relative` below `base`; an absolute path stands for itself. -/
def join (base : FilePath) (relative : String) : FilePath :=
  if (⟨relative⟩ : FilePath).isAbsolute then ⟨relative⟩
  else if base.text.isEmpty || base.text.toList.getLast? == some '/' then
    ⟨base.text ++ relative⟩
  else ⟨base.text ++ "/" ++ relative⟩

/-- The names among the components. -/
def names (path : FilePath) : List String :=
  path.components.filterMap Component.name?

/-- The last component, when it is a name. -/
def fileName? (path : FilePath) : Option String :=
  path.components.getLast?.bind Component.name?

/-- The components of `path` after those of `base`, when it starts with them. -/
def below? (base path : FilePath) : Option (List Component) :=
  base.components.isPrefixOf? path.components

/-- One step of cleaning. A `..` removes the component before it; it is kept
where there is none or only the root. -/
def cleanStep (kept : List Component) : Component → List Component
  | .current => kept
  | .parent =>
    match kept.getLast? with
    | none | some .root => kept ++ [.parent]
    | some _ => kept.dropLast
  | component => kept ++ [component]

/-- The path with `.` and `..` worked out from the text alone. -/
def clean (path : FilePath) : FilePath :=
  ofComponents (path.components.foldl cleanStep [])

end FilePath

end GoAtlas
