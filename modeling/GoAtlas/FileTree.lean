import GoAtlas.FilePath

/-!
# File trees

A file tree is a snapshot of a file system: directories, files and symbolic
links by their names from the root on. A path is followed as an operating system
follows it: name by name, `..` going up from where the way has led, links
replaced by their targets, at most `linkLimit` of them. Names and paths have a
greatest length, counted in bytes. A name is a text: a file whose name is not
valid UTF-8 has no place in a tree.
-/

namespace GoAtlas

/-- What stands at a place of a file tree. -/
inductive Entry where
  | directory
  /-- A file that holds a text. -/
  | text (content : String)
  /-- A file whose bytes are no text. -/
  | binary
  /-- A symbolic link. -/
  | link (target : FilePath)
deriving DecidableEq, Repr

/-- A file with the given bytes: a text, where they are valid UTF-8. -/
def Entry.ofBytes (bytes : ByteArray) : Entry :=
  match String.fromUTF8? bytes with
  | some content => .text content
  | none => .binary

/-- The entry is a file. -/
def Entry.isFile : Entry → Bool
  | .text _ | .binary => true
  | _ => false

/-- Where a path leads to: the names from the root on, without links. -/
abbrev Place := List String

/-- The order of places: name by name, each place before those below it. -/
def Place.isBefore : Place → Place → Bool
  | [], _ => true
  | _ :: _, [] => false
  | a :: rest, b :: others => if a = b then isBefore rest others else decide (a < b)

/-- The path of a place. -/
def Place.path (place : Place) : FilePath :=
  ⟨"/" ++ String.intercalate "/" place⟩

/-- The entries of a file system, as a process sees them. The root is a directory; it is not
listed. -/
structure FileTree where
  entries : List (Place × Entry) := []
  /-- The directory of the process. -/
  current : FilePath := ⟨"/"⟩

/-- Why a path could not be followed or read. -/
inductive ReadFault where
  | missing
  | notDirectory
  | isDirectory
  | tooManyLinks
  | nameTooLong
  /-- The path holds the character that ends a path. -/
  | nulInPath
  | notText
deriving DecidableEq, Repr

/-- The words for a fault. -/
def ReadFault.message : ReadFault → String
  | .missing => "No such file or directory (os error 2)"
  | .notDirectory => "Not a directory (os error 20)"
  | .isDirectory => "Is a directory (os error 21)"
  | .tooManyLinks => "Too many levels of symbolic links (os error 40)"
  | .nameTooLong => "File name too long (os error 36)"
  | .nulInPath => "file name contained an unexpected NUL byte"
  | .notText => "stream did not contain valid UTF-8"

/-- The pieces of a path between its slashes. -/
def FilePath.pieces (path : FilePath) : List String :=
  (path.text.toList.splitOn '/').map String.ofList

/-- How a way ends. -/
inductive Ending where
  /-- At what is there; a link is followed. -/
  | found
  /-- Where a file is written; a link is followed, and the last name may be new. -/
  | written
  /-- At the last name, whatever is there. -/
  | named
deriving DecidableEq, Repr

namespace FileTree

/-- The entry at a place. -/
def entryAt? (tree : FileTree) (place : Place) : Option Entry :=
  if place = [] then some .directory else tree.entries.lookup place

/-- So many links are followed on one way. -/
def linkLimit : Nat := 40

/-- A name has at most so many bytes. -/
def nameLimit : Nat := 255

/-- A path has at most so many bytes. -/
def pathLimit : Nat := 4095

/-- The place that the pieces of a path lead to from a place. Where a link is met
`onLink` goes on, with the pieces of the target before those that are left. -/
def followPieces (tree : FileTree) (ending : Ending)
    (onLink : Place → List String → Except ReadFault Place) :
    Place → List String → Except ReadFault Place
  | place, [] => .ok place
  | place, piece :: rest =>
    if tree.entryAt? place ≠ some .directory then .error .notDirectory
    else if piece = "" ∨ piece = "." then followPieces tree ending onLink place rest
    else if piece = ".." then followPieces tree ending onLink place.dropLast rest
    else if nameLimit < piece.utf8ByteSize then .error .nameTooLong
    else if rest = [] ∧ ending = .named then .ok (place ++ [piece])
    else
      match tree.entryAt? (place ++ [piece]) with
      | none =>
        if rest = [] ∧ ending = .written then .ok (place ++ [piece]) else .error .missing
      | some (.link target) =>
        onLink (if target.isAbsolute then [] else place) (target.pieces ++ rest)
      | some _ => followPieces tree ending onLink (place ++ [piece]) rest

/-- The place that the pieces of a path lead to from a place, where so many links
may be followed. -/
def follow (tree : FileTree) (ending : Ending) : Nat → Place → List String → Except ReadFault Place
  | 0 => tree.followPieces ending fun _ _ => .error .tooManyLinks
  | links + 1 => tree.followPieces ending (follow tree ending links)

/-- Where a path starts: at the root, or in the directory of the process. -/
def outset (tree : FileTree) (path : FilePath) : Place :=
  if path.isAbsolute then [] else tree.current.names

/-- The place a path leads to. -/
def resolve (tree : FileTree) (path : FilePath) : Except ReadFault Place :=
  if path.text.toList.contains '\x00' then .error .nulInPath
  else if pathLimit < path.text.utf8ByteSize then .error .nameTooLong
  else if path.text = "" then .error .missing
  else tree.follow .found linkLimit (tree.outset path) path.pieces

/-- The place a path leads to, worked out name by name, so that a long path does
no harm. -/
def canonical? (tree : FileTree) (path : FilePath) : Option Place :=
  if path.text = "" then none
  else (tree.follow .found linkLimit (tree.outset path) path.pieces).toOption

/-- The last name of a path is a link. -/
def isLink (tree : FileTree) (path : FilePath) : Bool :=
  match tree.follow .named linkLimit (tree.outset path) path.pieces with
  | .ok place =>
    match tree.entryAt? place with
    | some (.link _) => true
    | _ => false
  | .error _ => false

/-- The place of the directory a path leads to. -/
def directory? (tree : FileTree) (path : FilePath) : Option Place :=
  match tree.resolve path with
  | .ok place => if tree.entryAt? place = some .directory then some place else none
  | .error _ => none

/-- The text of the file a path leads to. -/
def read (tree : FileTree) (path : FilePath) : Except ReadFault String := do
  let place ← tree.resolve path
  match tree.entryAt? place with
  | some (.text content) => .ok content
  | some .binary => .error .notText
  | some .directory => .error .isDirectory
  | some (.link _) | none => .error .missing

/-- The names of the files in a directory, in order. Links are not among them. -/
def filesIn (tree : FileTree) (place : Place) : List String :=
  let names := tree.entries.filterMap fun (other, entry) =>
    match place.isPrefixOf? other with
    | some [name] => if entry.isFile then some name else none
    | _ => none
  names.mergeSort

/-- The directories below a directory, by their names from there on, each before
those inside it and otherwise in order. No directory is entered, and none listed,
that `skip` is true of. Links are not followed. -/
def directoriesBelow (tree : FileTree) (skip : String → Bool) (place : Place) : List Place :=
  let below := tree.entries.filterMap fun (other, entry) =>
    match place.isPrefixOf? other with
    | some (name :: rest) =>
      if entry = .directory ∧ ¬(name :: rest).any skip then some (name :: rest) else none
    | _ => none
  below.mergeSort Place.isBefore

/-- The tree with an entry at a place, in place of what was there. -/
def set (tree : FileTree) (place : Place) (entry : Entry) : FileTree :=
  { tree with entries := (place, entry) :: tree.entries.filter fun (other, _) => other != place }

/-- The tree with the directories on a way. A directory is made wherever there is
none, also before a `..`; the tree is left alone from where a file is in the way. -/
def makeDirectories (tree : FileTree) (place : Place) : List String → FileTree
  | [] => tree
  | piece :: rest =>
    match tree.follow .found linkLimit place [piece] with
    | .ok next => makeDirectories tree next rest
    | .error .missing =>
      makeDirectories (tree.set (place ++ [piece]) .directory) (place ++ [piece]) rest
    | .error _ => tree

/-- The tree with an entry at a path. Missing directories are made on the way; a
file put at a link goes where the link leads. -/
def put (tree : FileTree) (path : FilePath) (entry : Entry) : FileTree :=
  if entry = .directory then tree.makeDirectories [] path.pieces
  else
    let tree := tree.makeDirectories [] path.pieces.dropLast
    let ending := if entry.isFile then .written else .named
    match tree.follow ending linkLimit [] path.pieces with
    | .ok place => tree.set place entry
    | .error _ => tree

/-- The tree without what is at a path and below it. A link is removed itself. -/
def remove (tree : FileTree) (path : FilePath) : FileTree :=
  match tree.follow .named linkLimit [] path.pieces with
  | .ok place =>
    { tree with entries := tree.entries.filter fun (other, _) => !place.isPrefixOf other }
  | .error _ => tree

end FileTree

end GoAtlas
