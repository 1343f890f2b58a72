import GoAtlas.Atlas
import GoAtlas.Json

/-!
# An atlas as a JSON document

The document lists the packages by path and the nodes by place. A field that
holds nothing (no location, no comments, no methods, no tag) is left out.
-/

namespace GoAtlas

/-- The member of an object, left out when there is nothing to tell. -/
def Json.member? (name : String) (absent : Bool) (value : Json) : List (String × Json) :=
  if absent then [] else [(name, value)]

/-- Comment lines, left out when there are none. -/
def Json.linesMember (name : String) (lines : List String) : List (String × Json) :=
  Json.member? name lines.isEmpty (.strings lines)

/-- A table of places by name. -/
def Json.places (table : Table NodeId) : Json :=
  .object (table.entries.map fun entry => (entry.1, .nat entry.2))

def Name.toJson (name : Name) : Json :=
  .object <| [("package", .string name.package), ("name", .string name.name)] ++
    match name.path with
    | some path => [("path", .string path)]
    | none => []

def Member.toJson (member : Member) : Json :=
  .object <| [("name", .string member.name), ("embedded", .bool member.embedded)] ++
    Json.member? "tags" member.tag.isEmpty (.string member.tag) ++
    Json.linesMember "comment_lines" member.comments ++
    [("type", .nat member.type)]

def Signature.toJson (signature : Signature) : Json :=
  .object <| [("receiver", Json.ofOption .nat signature.receiver),
    ("parameters", .array (signature.parameters.map .nat)),
    ("results", .array (signature.results.map .nat)),
    ("variadic", .bool signature.variadic)] ++
    Json.linesMember "comment_lines" signature.comments

/-- The fields of a kind beside its word. -/
def Kind.fields : Kind → List (String × Json)
  | .unknown | .primitive | .interface | .unsupported => []
  | .struct members => [("members", .array (members.map Member.toJson))]
  | .map key elem => [("key", .nat key), ("elem", .nat elem)]
  | .slice elem | .array elem | .pointer elem | .chan elem => [("elem", .nat elem)]
  | .func signature => [("signature", signature.toJson)]
  | .aliasOf underlying => [("underlying", .nat underlying)]
  | .declaration underlying => [("underlying", Json.ofOption .nat underlying)]

def Kind.toJson (kind : Kind) : Json :=
  .object (("kind", .string kind.word) :: kind.fields)

def Node.toJson (node : Node) : Json :=
  .object <| [("name", node.name.toJson), ("kind", node.kind.toJson)] ++
    Json.linesMember "comment_lines" node.comments ++
    Json.linesMember "second_closest_comment_lines" node.earlierComments ++
    Json.member? "methods" node.methods.isEmpty (.places node.methods)

def Package.toJson (package : Package) : Json :=
  .object <| [("path", .string package.path)] ++
    (match package.sourcePath with
    | some path => [("source_path", .string path.text)]
    | none => []) ++
    [("name", .string package.name)] ++
    Json.linesMember "doc_comments" package.docComments ++
    Json.linesMember "comments" package.comments ++
    [("types", .places package.types), ("functions", .places package.functions),
      ("variables", .places package.vars), ("constants", .places package.consts),
      ("imports", .strings (NameSet.toList package.imports))]

/-- The document of an atlas. -/
def Atlas.toJson (atlas : Atlas) : Json :=
  .object [
    ("packages", .object (atlas.packages.entries.map fun entry => (entry.1, entry.2.toJson))),
    ("nodes", .array (atlas.nodes.toList.map Node.toJson))]

end GoAtlas
