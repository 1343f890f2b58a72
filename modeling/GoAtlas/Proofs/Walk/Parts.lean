import GoAtlas.Proofs.Atlas.Slots
import GoAtlas.Walk

/-!
# A walk by its parts

`describe` is what the walk does for a type that is neither named nor basic once
it has claimed the name: it walks the parts and gives the kind and the methods.
Seen this way every such type is walked alike, as a node (`type_eq_node`), and a
proof about walking splits on the type only where the parts differ.

A name that was asked for leads to the node it was given, so claiming it again
gives the same node (`claim_claimed`).
-/

namespace GoAtlas

/-- A type that is neither named nor basic. -/
def TypeExpr.isComposite : TypeExpr → Bool
  | .basic _ | .named _ _ => false
  | _ => true

theorem Walk.composite_of_not_aliased {expr : TypeExpr} (flattened : expr.isAliased = false) :
    expr.isComposite = true := by
  cases expr with
  | basic name | named package name => cases flattened
  | _ => rfl

/-- The names of the definitions. -/
def Definitions.names (definitions : Definitions) : List Name :=
  definitions.entries.map fun entry => { package := entry.1, name := entry.2.name }

theorem Definitions.mem_names {definitions : Definitions} {package name : String}
    {definition : Definition} (found : definitions.find? package name = some definition) :
    { package, name } ∈ definitions.names := by
  obtain ⟨entry, there, rfl⟩ := Option.map_eq_some_iff.1 found
  have matched := List.find?_some there
  simp only [Bool.and_eq_true, beq_iff_eq] at matched
  refine List.mem_map.2 ⟨entry, List.mem_of_find?_eq_some there, ?_⟩
  rw [matched.1, matched.2]

/-- No primitive is spelled with a dot. -/
theorem Primitive.dot_not_mem : ∀ entry ∈ registered, '.' ∉ entry.1.toList := by
  decide +kernel

/-- The identity of a method is not the name of a primitive. -/
theorem primitive?_methodName (owner : Name) (method : String) :
    Atlas.primitive? (methodName owner method) = none := by
  cases spells : Atlas.primitive? (methodName owner method) with
  | none => rfl
  | some spelling =>
    have registered := Primitive.mem_of_lookup (Atlas.primitive?_eq_some spells).2
    refine absurd ?_ (Primitive.dot_not_mem _ registered)
    simp [methodName]

namespace Atlas

theorem target?_primitiveNode (atlas : Atlas) (canonical : String) :
    (atlas.primitiveNode canonical).2.target? (Name.bare canonical).slot =
      some (atlas.primitiveNode canonical).1 := by
  unfold primitiveNode
  cases found : atlas.findType? (.bare canonical) with
  | some id => exact found
  | none => exact (target?_addNode ..).trans (if_pos rfl)

/-- A name that was asked for leads to the node it was given. -/
theorem findType?_typeNode (atlas : Atlas) (name : Name) :
    (atlas.typeNode name).2.findType? name = some (atlas.typeNode name).1 := by
  unfold typeNode
  cases found : atlas.findType? name with
  | some id => exact found
  | none =>
    cases primitive : primitive? name with
    | none =>
      show (atlas.addNode name.slot (.marker name)).target? name.slot = some atlas.nodeCount
      rw [target?_addNode, if_pos rfl]
    | some canonical =>
      rw [findType?_eq_target?, ← slot_bare_of_primitive primitive]
      dsimp only
      split
      · next same =>
        rw [← same]
        exact target?_primitiveNode atlas canonical
      · exact (target?_bind ..).trans (if_pos rfl)

/-- Asking twice is asking once. -/
theorem typeNode_typeNode (atlas : Atlas) (name : Name) :
    (atlas.typeNode name).2.typeNode name = atlas.typeNode name := by
  rw [typeNode, findType?_typeNode]

end Atlas

namespace Walk

/-- A name that was claimed leads to the node it was given. -/
theorem findType?_claim (walk : Walk) (name : Name) :
    (walk.claim name).2.atlas.findType? name = some (walk.claim name).1.1 :=
  walk.atlas.findType?_typeNode name

/-- Claiming twice is claiming once. -/
theorem claim_claimed {walk claimed : Walk} {name : Name} {answer : NodeId × Bool}
    (claim : walk.claim name = (answer, claimed)) : claimed.claim name = (answer, claimed) := by
  rw [← claim, show claimed = (walk.claim name).2 by rw [claim]]
  simp only [Walk.claim, walk.atlas.typeNode_typeNode]

/-- A name that is to be described is not busy, and its node is a marker. -/
theorem fresh_of_claim {walk claimed : Walk} {name : Name} {id : NodeId}
    (fresh : walk.claim name = ((id, true), claimed)) :
    claimed.atlas.isMarker id = true ∧ name ∉ walk.busy := by
  simp only [claim, Prod.mk.injEq, Bool.and_eq_true] at fresh
  obtain ⟨⟨rfl, marker, idle⟩, rfl⟩ := fresh
  exact ⟨marker, by simpa using idle⟩

theorem node_fst {describe : Walk → (Kind × Table NodeId) × Walk} (walk : Walk) (name : Name) :
    (walk.node name describe).1 = (walk.claim name).1.1 := by
  unfold node
  generalize walk.claim name = result
  obtain ⟨⟨id, fresh⟩, claimed⟩ := result
  cases fresh <;> rfl

variable (lookup : Lookup) (expand : String → String → Walk → NodeId × Walk)

/-- The kind and the methods of a type that is neither named nor basic, once the
parts are walked. -/
def describe (owner : Name) : TypeExpr → Walk → (Kind × Table NodeId) × Walk
  | .pointer elem, walk =>
    let (elem, walk) := type lookup expand none elem walk
    ((.pointer elem, ∅), walk)
  | .slice elem, walk =>
    let (elem, walk) := type lookup expand none elem walk
    ((.slice elem, ∅), walk)
  | .array _ elem, walk =>
    let (elem, walk) := type lookup expand none elem walk
    ((.array elem, ∅), walk)
  | .chan _ elem, walk =>
    let (elem, walk) := type lookup expand none elem walk
    ((.chan elem, ∅), walk)
  | .map key elem, walk =>
    let (elem, walk) := type lookup expand none elem walk
    let (key, walk) := type lookup expand none key walk
    ((.map key elem, ∅), walk)
  | .struct fields, walk =>
    let (members, walk) := members lookup expand fields walk
    ((.struct members, ∅), walk)
  | .func signature, walk =>
    let (signature, walk) := signatureOf lookup expand signature walk
    ((.func signature, ∅), walk)
  | .interface methods, walk =>
    let (methods, walk) := methodsOf lookup expand
      (fun method => method.declaringInterface?.getD owner) methods ∅ walk
    ((.interface, methods), walk)
  | .basic _, walk | .named _ _, walk | .other _, walk => ((.unsupported, ∅), walk)

theorem type_eq_node (useName : Option Name) {expr : TypeExpr} (composite : expr.isComposite = true)
    (walk : Walk) : type lookup expand useName expr walk =
      walk.node (useName.getD expr.canonicalName)
        (describe lookup expand (useName.getD expr.canonicalName) expr) := by
  cases expr with
  | basic name | named package name => cases composite
  | _ => rfl

/-- A method is walked as a node for a function, and its comment is written. -/
theorem method_eq_node (identity : Name) (expr : MethodExpr) (walk : Walk) :
    method lookup expand identity expr walk =
      let result := walk.node identity (describe lookup expand identity (.func expr.signature))
      (result.1, result.2.setMethodComments result.1 (lookup.comments.docLines expr.pos)) := by
  obtain ⟨_, _, signature⟩ := expr
  rfl

/-- What is found for a type is a kind, and no declaration. -/
theorem describe_known (owner : Name) (expr : TypeExpr) (walk : Walk) :
    (describe lookup expand owner expr walk).1.1.isUnknown = false := by
  cases expr <;> rfl

/-- A named type given its kind by its definition, still without the methods
declared on it. -/
def defineKind (walk : Walk) (id : NodeId) (name : Name) (definition : Definition) : Walk :=
  if definition.underlying.isAliased then
    let (underlying, walk) := type lookup expand none definition.underlying (walk.start name)
    walk.finish id name (.aliasOf underlying)
  else (type lookup expand (some name) definition.underlying walk).2

theorem define_eq (walk : Walk) (id : NodeId) (name : Name) (definition : Definition) :
    define lookup expand walk id name definition =
      addMethods lookup expand (defineKind lookup expand walk id name definition) id name
        definition := rfl

/-- A named type over a type that it takes over is walked as a node of its own
name. -/
theorem defineKind_of_claim {walk claimed : Walk} {id : NodeId} {name : Name}
    {definition : Definition} (fresh : walk.claim name = ((id, true), claimed))
    (flattened : definition.underlying.isAliased = false) :
    defineKind lookup expand claimed id name definition =
      (walk.node name (describe lookup expand name definition.underlying)).2 := by
  rw [defineKind, flattened, if_neg Bool.false_ne_true,
    type_eq_node lookup expand _ (composite_of_not_aliased flattened), Option.getD_some, node, node,
    claim_claimed fresh, fresh]

end Walk

end GoAtlas
