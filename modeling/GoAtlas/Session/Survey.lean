import GoAtlas.Session
import GoAtlas.Walk

/-!
# The atlas of a session

The packages that were asked for are described in path order. Packages that are
only imported appear as far as these refer to them.
-/

namespace GoAtlas.Session

variable {U : Type} (env : Environment U)

/-- The definitions a session knows: the predeclared ones, under no package, and
those of every package that was checked. -/
def definitions (session : Session U) : Definitions :=
  { entries :=
      (env.frontend.predeclared.reverse.map fun definition => ("", definition))
        ++ session.checks.entries.flatMap fun (package, state) =>
          if package.isEmpty then []
          else ((state.checked?.map fun checked => checked.definitions.values).getD []).map
            fun definition => (package, definition) }

/-- What a walk over the types of a session looks up. -/
def lookup (session : Session U) : Lookup :=
  { definitions := session.definitions env, comments := session.sources.comments }

/-- The record of a package with the comments of one more file. Only `doc.go`
counts. -/
def documented (record : Package) (file : SourceFile U) : Package :=
  if file.path.fileName? = some "doc.go" then
    { record with
      comments := file.comments.flatMap CommentGroup.textLines
      docComments := (file.doc.map CommentGroup.textLines).getD record.docComments }
  else record

/-- One more declaration of a package. Methods are reached through their type. -/
def survey (lookup : Lookup) (package : String) (walk : Walk) (declaration : Declaration) : Walk :=
  let name : Name := { package, name := declaration.name }
  match declaration.declared with
  | .type type =>
    let (id, walk) := walk.addType lookup none type
    walk.attachDoc lookup id declaration.pos
  | .func signature =>
    if signature.receiver.isSome then walk
    else
      let (id, walk) := walk.declare lookup .function name (.func signature)
      walk.attachDoc lookup id declaration.pos
  | .var type => (walk.declare lookup .variable name type).2
  | .const type => (walk.declare lookup .constant name type).2

/-- The atlas with one more package. -/
def surveyPackage (session : Session U) (atlas : Atlas) (package : String) (checked : Checked) :
    Atlas :=
  let files := session.sources.filesOf package
  let atlas := atlas.updatePackage package fun record =>
    files.foldl documented
      { record with name := checked.name, sourcePath := session.directories.get? package }
  let walk := checked.sorted.foldl (survey (session.lookup env) package) { atlas }
  walk.atlas.addImports package ((session.sources.importsOf package).map ImportPath.canonical)

/-- The atlas with the packages of a list that were asked for. -/
def surveyAll (session : Session U) : List String → Atlas → Except Failure Atlas
  | [], atlas => .ok atlas
  | package :: rest, atlas =>
    if session.requested.contains package then
      match session.checked? package with
      | none => .error (.unknownPackage package)
      | some checked => surveyAll session rest (session.surveyPackage env atlas package checked)
    else surveyAll session rest atlas

/-- The atlas of the packages that were asked for. -/
def atlas (session : Session U) : Except Failure Atlas :=
  session.surveyAll env session.sources.packages {}

end GoAtlas.Session
