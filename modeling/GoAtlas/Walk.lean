import GoAtlas.Atlas
import GoAtlas.Comment.Index
import GoAtlas.TypeExpr.Description

/-!
# Walking types into the atlas

A walk adds a type and everything it is made of to the atlas, one node for each
name. A node is described once, after its parts; while it is being described its
name is busy, and a reference back to a busy or described node is that node, so
recursive types give cycles in the graph. A type that has no kind becomes
`unsupported`, so a walk never fails.

Within one type expression the walk follows the expression. Only a named type
leads to another expression, its definition, and it does so while its own name
is busy or described: definitions are entered at most once on the way down, and
their number bounds the depth of the walk.
-/

namespace GoAtlas

/-- What a walk looks up. -/
structure Lookup where
  definitions : Definitions
  comments : CommentIndex

/-- The atlas while it is walked, and the names of the nodes that are being
described. -/
structure Walk where
  atlas : Atlas
  busy : List Name := []

/-- A method is named after its owner: `Point.Dist` in the owner's package. -/
def methodName (owner : Name) (method : String) : Name :=
  { package := owner.package, name := owner.name ++ "." ++ method }

/-- The interface that a method of an interface was declared in, which is its
receiver. -/
def MethodExpr.declaringInterface? (method : MethodExpr) : Option Name :=
  match method.signature.receiver with
  | some (.named package name) => some { package, name }
  | _ => none

/-- A named type over this one is an alias with a node of its own for it. Any
other named type takes its kind directly. -/
def TypeExpr.isAliased : TypeExpr → Bool
  | .named _ _ | .basic _ | .map _ _ | .slice _ => true
  | _ => false

namespace Walk

/-- The node of a name, and whether it still has to be described. -/
def claim (walk : Walk) (name : Name) : (NodeId × Bool) × Walk :=
  let (id, atlas) := walk.atlas.typeNode name
  ((id, atlas.isMarker id && !walk.busy.contains name), { walk with atlas })

/-- The walk with a name busy. -/
def start (walk : Walk) (name : Name) : Walk :=
  { walk with busy := name :: walk.busy }

/-- The walk with a node described and its name not busy any more. -/
def finish (walk : Walk) (id : NodeId) (name : Name) (kind : Kind) : Walk :=
  { atlas := walk.atlas.resolve id kind, busy := walk.busy.erase name }

/-- The walk with the methods of a node set, unless there are none. -/
def setMethods (walk : Walk) (id : NodeId) (methods : Table NodeId) : Walk :=
  if methods.isEmpty then walk
  else { walk with atlas := walk.atlas.updateNode id fun node => { node with methods } }

/-- The node of a name, described by `describe` if it still has to be. -/
def node (walk : Walk) (name : Name) (describe : Walk → (Kind × Table NodeId) × Walk) :
    NodeId × Walk :=
  let ((id, fresh), walk) := walk.claim name
  if fresh then
    let ((kind, methods), walk) := describe (walk.start name)
    (id, (walk.finish id name kind).setMethods id methods)
  else (id, walk)

/-- A primitive. One that is not registered is unsupported. -/
def basic (walk : Walk) (name : String) : NodeId × Walk :=
  let (id, atlas) := walk.atlas.typeNode (.bare name)
  (id, { walk with
    atlas := if Primitive.isRegistered name then atlas else atlas.resolve id .unsupported })

/-- The comment of a method, on its node and on its signature. -/
def setMethodComments (walk : Walk) (id : NodeId) (comments : List String) : Walk :=
  { walk with
    atlas := walk.atlas.updateNode id fun node =>
      match node.kind with
      | .func signature => { node with kind := .func { signature with comments }, comments }
      | _ => { node with comments } }

variable (lookup : Lookup) (expand : String → String → Walk → NodeId × Walk)

mutual

/-- The node of a type. A named type is left to `expand`; a type that is neither
named nor basic goes under `useName` when one is given. -/
def type (useName : Option Name) : TypeExpr → Walk → NodeId × Walk
  | .basic name, walk => walk.basic name
  | .named package name, walk => expand package name walk
  | .pointer elem, walk =>
    walk.node (useName.getD (TypeExpr.pointer elem).canonicalName) fun walk =>
      let (elem, walk) := type none elem walk
      ((.pointer elem, ∅), walk)
  | .slice elem, walk =>
    walk.node (useName.getD (TypeExpr.slice elem).canonicalName) fun walk =>
      let (elem, walk) := type none elem walk
      ((.slice elem, ∅), walk)
  | .array length elem, walk =>
    walk.node (useName.getD (TypeExpr.array length elem).canonicalName) fun walk =>
      let (elem, walk) := type none elem walk
      ((.array elem, ∅), walk)
  | .chan direction elem, walk =>
    walk.node (useName.getD (TypeExpr.chan direction elem).canonicalName) fun walk =>
      let (elem, walk) := type none elem walk
      ((.chan elem, ∅), walk)
  | .map key elem, walk =>
    walk.node (useName.getD (TypeExpr.map key elem).canonicalName) fun walk =>
      let (elem, walk) := type none elem walk
      let (key, walk) := type none key walk
      ((.map key elem, ∅), walk)
  | .struct fields, walk =>
    walk.node (useName.getD (TypeExpr.struct fields).canonicalName) fun walk =>
      let (members, walk) := members fields walk
      ((.struct members, ∅), walk)
  | .func signature, walk =>
    walk.node (useName.getD (TypeExpr.func signature).canonicalName) fun walk =>
      let (signature, walk) := signatureOf signature walk
      ((.func signature, ∅), walk)
  | .interface methods, walk =>
    let name := useName.getD (TypeExpr.interface methods).canonicalName
    walk.node name fun walk =>
      let (methods, walk) :=
        methodsOf (fun method => method.declaringInterface?.getD name) methods ∅ walk
      ((.interface, methods), walk)
  | .other description, walk =>
    walk.node (useName.getD (TypeExpr.other description).canonicalName) fun walk =>
      ((.unsupported, ∅), walk)

/-- The nodes of a list of types. -/
def types : List TypeExpr → Walk → List NodeId × Walk
  | [], walk => ([], walk)
  | first :: rest, walk =>
    let (first, walk) := type none first walk
    let (rest, walk) := types rest walk
    (first :: rest, walk)

/-- The fields of a struct with the nodes of their types. -/
def members : List FieldExpr → Walk → List Member × Walk
  | [], walk => ([], walk)
  | ⟨name, embedded, tag, fieldType, pos⟩ :: rest, walk =>
    let (type, walk) := type none fieldType walk
    let (rest, walk) := members rest walk
    ({ name, embedded, tag, comments := lookup.comments.docLines pos, type } :: rest, walk)

/-- The node of a receiver. -/
def receiverOf : Option TypeExpr → Walk → Option NodeId × Walk
  | none, walk => (none, walk)
  | some receiver, walk =>
    let (receiver, walk) := type none receiver walk
    (some receiver, walk)

/-- A signature over nodes: parameters first, then results, then the receiver. -/
def signatureOf : SignatureExpr → Walk → Signature × Walk
  | ⟨receiver, params, results, variadic⟩, walk =>
    let (parameters, walk) := types params walk
    let (results, walk) := types results walk
    let (receiver, walk) := receiverOf receiver walk
    ({ receiver, parameters, results, variadic, comments := [] }, walk)

/-- The node of a method. Its comment is written on every visit. -/
def method (name : Name) : MethodExpr → Walk → NodeId × Walk
  | ⟨_, pos, signature⟩, walk =>
    let (id, walk) := walk.node name fun walk =>
      let (signature, walk) := signatureOf signature walk
      ((.func signature, ∅), walk)
    (id, walk.setMethodComments id (lookup.comments.docLines pos))

/-- The nodes of a list of methods by name, added to those of `known`. -/
def methodsOf (ownerOf : MethodExpr → Name) :
    List MethodExpr → Table NodeId → Walk → Table NodeId × Walk
  | [], known, walk => (known, walk)
  | ⟨name, pos, signature⟩ :: rest, known, walk =>
    let owner := ownerOf ⟨name, pos, signature⟩
    let (id, walk) := method (methodName owner name) ⟨name, pos, signature⟩ walk
    methodsOf ownerOf rest (known.insert name id) walk

end

/-- The methods declared on a named type, unless the node has methods already. -/
def addMethods (walk : Walk) (id : NodeId) (name : Name) (definition : Definition) : Walk :=
  if (walk.atlas.node? id).all fun node => node.methods.isEmpty then
    let (methods, walk) := methodsOf lookup expand (fun _ => name) definition.methods ∅ walk
    walk.setMethods id methods
  else walk

/-- A named type described by its definition. -/
def define (walk : Walk) (id : NodeId) (name : Name) (definition : Definition) : Walk :=
  let walk :=
    if definition.underlying.isAliased then
      let (underlying, walk) := type lookup expand none definition.underlying (walk.start name)
      walk.finish id name (.aliasOf underlying)
    else (type lookup expand (some name) definition.underlying walk).2
  addMethods lookup expand walk id name definition

/-- The node of a named type, entering at most `depth` definitions on the way
down. One without a definition is unsupported. -/
def named (lookup : Lookup) : Nat → String → String → Walk → NodeId × Walk
  | 0, package, name, walk =>
    let ((id, _), walk) := walk.claim { package, name }
    (id, walk)
  | depth + 1, package, name, walk =>
    let ((id, fresh), walk) := walk.claim { package, name }
    if fresh then
      match lookup.definitions.find? package name with
      | none => (id, { walk with atlas := walk.atlas.resolve id .unsupported })
      | some definition =>
        (id, define lookup (named lookup depth) walk id { package, name } definition)
    else (id, walk)

/-- More definitions than there are cannot be entered on the way down. -/
def depthBound (lookup : Lookup) : Nat :=
  lookup.definitions.entries.length + 1

/-- A type and everything it needs, added to the atlas. A type that is neither
named nor basic goes under `useName` when one is given. -/
def addType (lookup : Lookup) (useName : Option Name) (expr : TypeExpr) (walk : Walk) :
    NodeId × Walk :=
  type lookup (named lookup (depthBound lookup)) useName expr walk

/-- A top-level declaration with the node of its type. -/
def declare (lookup : Lookup) (sort : DeclarationSort) (name : Name) (expr : TypeExpr)
    (walk : Walk) : NodeId × Walk :=
  let (id, atlas) := walk.atlas.declarationNode sort name
  let (underlying, walk) := addType lookup none expr { walk with atlas }
  (id, { walk with atlas := walk.atlas.declare id underlying })

/-- The two comment groups above a position: the closest one, which ends on the
line above, and the one that ends a line above that or above the position. -/
def commentsAbove (comments : CommentIndex) (pos : Position) :
    Option CommentGroup × Option CommentGroup :=
  match comments.prior? pos 1 with
  | none => (none, comments.prior? pos 2)
  | some closest => (some closest, comments.prior? { pos with line := closest.start } 2)

/-- The comments above a position, set on a node. -/
def attachDoc (lookup : Lookup) (id : NodeId) (pos : Option Position) (walk : Walk) : Walk :=
  match pos with
  | none => walk
  | some pos =>
    let (closest, second) := commentsAbove lookup.comments pos
    { walk with
      atlas := walk.atlas.updateNode id fun node =>
        { node with
          comments := (closest.map CommentGroup.textLines).getD []
          earlierComments := (second.map CommentGroup.textLines).getD [] } }

end Walk

end GoAtlas
