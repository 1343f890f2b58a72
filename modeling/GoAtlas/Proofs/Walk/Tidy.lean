import GoAtlas.Proofs.Walk.Depth
import GoAtlas.Proofs.Walk.Subject

/-!
# What a walk keeps in order

In the middle of a walk there are markers, and they are referred to like any other
node. `Tidy` says what holds all the same: a marker belongs to a busy name, a
declaration without its type is the one that is being made, every node that is
referred to is there, and the nodes in tables of methods are those of methods.
So once no name is busy there are no markers.

That the node of a method is a function is a matter of names: a type that goes
under the identity of a method may get there first. `Topic` is what a walk deals
with under a name, and `Apart` that no type among the topics has the name of a
method.
-/

namespace GoAtlas

/-! ## Topics -/

/-- What a walk deals with: a type under the name of its node, or a method under
its identity. -/
inductive Topic where
  | type (name : Name) (expr : TypeExpr)
  | method (identity : Name) (expr : MethodExpr)

namespace Topic

variable {definitions : Definitions} {owner : Name}

/-- A type under its own name. -/
def ofType (expr : TypeExpr) : Topic :=
  .type expr.canonicalName expr

/-- A type under the name it is walked under: a type that is neither named nor
basic goes under `useName` when one is given. -/
def walked (useName : Option Name) (expr : TypeExpr) : Topic :=
  .type (if expr.isComposite then useName.getD expr.canonicalName else expr.canonicalName) expr

theorem walked_none (expr : TypeExpr) : walked none expr = ofType expr := by
  rw [walked, Option.getD_none, ite_self, ofType]

/-- The structure of a named type, under the name of the type when it takes it
over, and the methods declared on the type. -/
def ofDefinition (name : Name) (definition : Definition) : List Topic :=
  .type (if definition.underlying.isAliased then definition.underlying.canonicalName else name)
      definition.underlying
    :: definition.methods.map fun method => .method (methodName name method.name) method

/-- The topics one topic leads to: parts, methods and the definition of a name. -/
def next (definitions : Definitions) : Topic → List Topic
  | .type name expr =>
    expr.parts.map ofType ++ (expr.required name).map (fun entry => .method entry.1 entry.2) ++
      match definitions.of? expr with
      | some definition => ofDefinition expr.canonicalName definition
      | none => []
  | .method _ expr => expr.signature.parts.map ofType

theorem part_mem {expr part : TypeExpr} (mem : part ∈ expr.parts) :
    ofType part ∈ next definitions (.type owner expr) :=
  List.mem_append_left _ (List.mem_append_left _ (List.mem_map_of_mem mem))

theorem required_mem {expr : TypeExpr} {entry : Name × MethodExpr}
    (mem : entry ∈ expr.required owner) :
    .method entry.1 entry.2 ∈ next definitions (.type owner expr) :=
  List.mem_append_left _ (List.mem_append_right _
    (List.mem_map_of_mem (f := fun entry : Name × MethodExpr => Topic.method entry.1 entry.2) mem))

theorem definition_mem {package name : String} {definition : Definition}
    (found : definitions.find? package name = some definition) {topic : Topic}
    (mem : topic ∈ ofDefinition { package, name } definition) :
    topic ∈ next definitions (.type owner (.named package name)) := by
  refine List.mem_append_right _ ?_
  rw [Definitions.of?, found]
  exact mem

/-- A topic leads to methods by their identities. -/
theorem plain_of_next {topic : Topic} {identity : Name} {method : MethodExpr}
    (mem : .method identity method ∈ topic.next definitions) :
    Atlas.primitive? identity = none := by
  cases topic with
  | method name expr =>
    obtain ⟨part, -, eq⟩ := List.mem_map.1 mem
    cases eq
  | type name expr =>
    rcases List.mem_append.1 mem with mem | mem
    · rcases List.mem_append.1 mem with mem | mem
      · obtain ⟨part, -, eq⟩ := List.mem_map.1 mem
        cases eq
      · obtain ⟨entry, listed, eq⟩ := List.mem_map.1 mem
        cases eq
        cases expr with
        | interface methods =>
          obtain ⟨method, -, rfl⟩ := List.mem_map.1 listed
          exact primitive?_methodName _ _
        | _ => cases listed
    · split at mem
      · rcases List.mem_cons.1 mem with eq | mem
        · cases eq
        · obtain ⟨method, -, eq⟩ := List.mem_map.1 mem
          cases eq
          exact primitive?_methodName _ _
      · cases mem

/-- No type has the name of a method. The location of a name plays no part. -/
def Apart (met : Topic → Prop) : Prop :=
  ∀ name expr identity method, met (.type name expr) → met (.method identity method) →
    name.slot ≠ identity.slot

/-- The slot of a type. -/
def typeSlot? : Topic → Option Slot
  | .type name _ => some name.slot
  | .method _ _ => none

/-- The slot of a method. -/
def methodSlot? : Topic → Option Slot
  | .type _ _ => none
  | .method identity _ => some identity.slot

/-- Topics are apart when the slots of finitely many that hold them are. -/
theorem apart_of_mem {met : Topic → Prop} (topics : List Topic)
    (mem : ∀ topic, met topic → topic ∈ topics)
    (apart : ∀ slot ∈ topics.filterMap typeSlot?, slot ∉ topics.filterMap methodSlot?) :
    Apart met := by
  intro name expr identity method type function same
  have first : name.slot ∈ topics.filterMap typeSlot? :=
    List.mem_filterMap.2 ⟨_, mem _ type, rfl⟩
  exact apart _ first (List.mem_filterMap.2 ⟨_, mem _ function, congrArg some same.symm⟩)

end Topic

/-! ## Functions -/

namespace Kind

/-- The kind of a function. -/
def isFunc : Kind → Bool
  | .func _ => true
  | _ => false

@[simp] theorem isFunc_bare (kind : Kind) : kind.bare.isFunc = kind.isFunc := by
  cases kind <;> rfl

theorem bare_eq_primitive {kind : Kind} : kind.bare = .primitive ↔ kind = .primitive := by
  cases kind with
  | struct members | func signature => exact ⟨nofun, nofun⟩
  | _ => exact Iff.rfl

theorem bare_eq_declaration {kind : Kind} {underlying : Option NodeId} :
    kind.bare = .declaration underlying ↔ kind = .declaration underlying := by
  cases kind with
  | struct members | func signature => exact ⟨nofun, nofun⟩
  | _ => exact Iff.rfl

end Kind

namespace Atlas

variable {before after atlas : Atlas} {name : Name} {id : NodeId}

/-- The names of an atlas lead where they led. -/
def Leading (before after : Atlas) : Prop :=
  ∀ slot id, before.target? slot = some id → after.target? slot = some id

theorem Leading.findType? (h : before.Leading after) (found : before.findType? name = some id) :
    after.findType? name = some id :=
  h name.slot id found

theorem Leading.nodeCount_le (h : before.Leading after) (consistent : before.Consistent)
    (consistent' : after.Consistent) : before.nodeCount ≤ after.nodeCount := by
  refine Nat.le_of_not_lt fun lt => ?_
  obtain ⟨slot, found⟩ := consistent.covered after.nodeCount lt
  exact Nat.lt_irrefl _ (consistent'.lt_nodeCount (h slot _ found))

/-- A name that spells no primitive and leads to an old node led there before. -/
theorem Leading.findType?_of_lt (h : before.Leading after) (consistent : before.Consistent)
    (consistent' : after.Consistent) (plain : primitive? name = none)
    (found : after.findType? name = some id) (old : id < before.nodeCount) :
    before.findType? name = some id := by
  obtain ⟨slot, leads⟩ := consistent.covered id old
  have noPrimitive : name.slot.primitive? = none := plain
  have same := consistent'.apart slot name.slot id (h slot id leads) found
  have slotPlain : slot.primitive? = none := by
    rw [← slot.primitive?_canonical, same, name.slot.primitive?_canonical, noPrimitive]
  rw [Slot.canonical_eq_self noPrimitive, Slot.canonical_eq_self slotPlain] at same
  rw [findType?_eq_target?, ← same, leads]

theorem declarationNode_eq (atlas : Atlas) (sort : DeclarationSort) (name : Name) :
    atlas.declarationNode sort name =
      match atlas.target? ⟨name.package, name.name, .declaration sort⟩ with
      | some id => (id, atlas)
      | none => (atlas.nodeCount, atlas.addNode ⟨name.package, name.name, .declaration sort⟩
          { name, kind := .declaration none }) := rfl

/-- The only node that is new when a name is asked for is its marker, or the node
of a primitive. -/
theorem node?_typeNode {node : Node} (hn : (atlas.typeNode name).2.node? id = some node) :
    atlas.node? id = some node ∨ (node = .marker name ∧ (atlas.typeNode name).1 = id) ∨
      ∃ canonical, Primitive.canonical? canonical = some canonical ∧
        node = { name := .bare canonical, kind := .primitive } := by
  unfold typeNode at hn ⊢
  cases found : atlas.findType? name with
  | some place =>
    rw [found] at hn
    exact .inl hn
  | none =>
    rw [found] at hn
    cases primitive : primitive? name with
    | none =>
      rw [primitive] at hn
      dsimp only at hn ⊢
      rw [addType_eq_addNode, node?_addNode] at hn
      split at hn
      · next eq =>
        cases hn
        exact .inr (.inl ⟨rfl, eq.symm⟩)
      · exact .inl hn
    | some canonical =>
      rw [primitive] at hn
      dsimp only at hn ⊢
      have here : (atlas.primitiveNode canonical).2.node? id = some node := by
        split at hn <;> exact hn
      unfold primitiveNode at here
      split at here
      · exact .inl here
      · rw [addType_eq_addNode, node?_addNode] at here
        split at here
        · cases here
          exact .inr (.inr ⟨canonical,
            Primitive.canonical?_canonical (primitive?_eq_some primitive).2, rfl⟩)
        · exact .inl here

end Atlas

namespace Walk

/-! ## The invariant -/

/-- A table of methods leads to nodes of methods. -/
def Listed (met : Topic → Prop) (atlas : Atlas) (table : Table NodeId) : Prop :=
  ∀ key id, table.get? key = some id →
    ∃ identity method, met (.method identity method) ∧ atlas.findType? identity = some id

/-- What holds of a node in the middle of a walk. -/
structure Fits (met : Topic → Prop) (pending : Option NodeId) (walk : Walk) (id : NodeId)
    (node : Node) : Prop where
  /-- A marker belongs to a busy name. -/
  marker : node.isResolved = false →
    ∃ name ∈ walk.busy, walk.atlas.findType? name = some id
  /-- A declaration without its type is being made. -/
  declared : node.kind = .declaration none → pending = some id
  bounded : ∀ ref ∈ node.kind.refs, ref < walk.atlas.nodeCount
  listed : Listed met walk.atlas node.methods
  /-- The node of a method is a function, or will be one. -/
  function : Topic.Apart met → ∀ identity method, met (.method identity method) →
    walk.atlas.findType? identity = some id → node.isResolved = false ∨ node.kind.isFunc = true

/-- What holds in the middle of a walk. -/
structure Tidy (met : Topic → Prop) (pending : Option NodeId) (walk : Walk) : Prop where
  /-- Identities are not spelled like primitives. -/
  plain : ∀ identity method, met (.method identity method) → Atlas.primitive? identity = none
  consistent : walk.atlas.Consistent
  fits : ∀ id node, walk.atlas.node? id = some node → Fits met pending walk id node

variable {met : Topic → Prop} {pending : Option NodeId} {walk after claimed : Walk} {name : Name}
  {id : NodeId}

theorem Listed.later {before after : Atlas} {table : Table NodeId} (h : Listed met before table)
    (leading : before.Leading after) : Listed met after table := by
  intro key id found
  obtain ⟨identity, method, asked, leads⟩ := h key id found
  exact ⟨identity, method, asked, leading.findType? leads⟩

theorem listed_empty (atlas : Atlas) : Listed met atlas ∅ := by
  intro key id found
  cases found

namespace Tidy

section

variable (h : Tidy met pending walk)

include h

/-- A name leads to a node that is there. -/
theorem lt_nodeCount (found : walk.atlas.findType? name = some id) : id < walk.atlas.nodeCount := by
  have bound : walk.atlas.target? name.slot = some id := found
  exact h.consistent.lt_nodeCount bound

/-- What was in order stays so where names lead where they led and every node is
in order or has the kind and the methods it had, or other methods. -/
theorem later (leading : walk.atlas.Leading after.atlas) (consistent : after.atlas.Consistent)
    (busy : ∀ name ∈ walk.busy, name ∈ after.busy)
    (nodes : ∀ id node, after.atlas.node? id = some node → Fits met pending after id node ∨
      ∃ old, walk.atlas.node? id = some old ∧ node.kind.bare = old.kind.bare ∧
        (node.methods = old.methods ∨ Listed met after.atlas node.methods)) :
    Tidy met pending after where
  plain := h.plain
  consistent := consistent
  fits id node hn := by
    rcases nodes id node hn with fits | ⟨old, there, kind, methods⟩
    · exact fits
    · have fits := h.fits id old there
      have resolved : node.isResolved = old.isResolved := by
        rw [Node.isResolved, Node.isResolved, ← Kind.isUnknown_bare, kind, Kind.isUnknown_bare]
      constructor
      · intro marker
        obtain ⟨name, mem, leads⟩ := fits.marker (resolved ▸ marker)
        exact ⟨name, busy name mem, leading.findType? leads⟩
      · intro undeclared
        refine fits.declared (Kind.bare_eq_declaration.1 ?_)
        rw [← kind, undeclared]
        rfl
      · intro ref mem
        rw [← Kind.refs_bare, kind, Kind.refs_bare] at mem
        exact Nat.lt_of_lt_of_le (fits.bounded ref mem)
          (leading.nodeCount_le h.consistent consistent)
      · rcases methods with same | listed
        · rw [same]
          exact fits.listed.later leading
        · exact listed
      · intro apart identity method asked leads
        have lt := (walk.atlas.lt_nodeCount_iff id).2 ⟨old, there⟩
        have led := leading.findType?_of_lt h.consistent consistent (h.plain _ _ asked) leads lt
        rw [resolved, ← Kind.isFunc_bare, kind, Kind.isFunc_bare]
        exact fits.function apart identity method asked led

/-- The claim of a name is in order when the name is busy afterwards, should it
have to be described. -/
theorem claim (atlas : after.atlas = (walk.claim name).2.atlas)
    (busy : ∀ other ∈ walk.busy, other ∈ after.busy)
    (started : after.atlas.isMarker (walk.claim name).1.1 = true → name ∈ after.busy) :
    Tidy met pending after := by
  have consistent : after.atlas.Consistent := atlas ▸ h.consistent.typeNode name
  refine h.later (atlas ▸ (onward_claim walk name).atlas.bound) consistent busy fun id node hn => ?_
  have here : (walk.atlas.typeNode name).2.node? id = some node := by
    rw [atlas] at hn
    exact hn
  rcases Atlas.node?_typeNode here with old | ⟨rfl, same⟩ | ⟨canonical, spelled, rfl⟩
  · exact .inr ⟨node, old, rfl, .inl rfl⟩
  · refine .inl ⟨fun _ => ⟨name, started ?_, ?_⟩, fun open_ => (by cases open_),
      fun ref mem => (by cases mem), listed_empty _, fun _ _ _ _ _ => .inl rfl⟩
    · show after.atlas.isMarker (walk.atlas.typeNode name).1 = true
      rw [same, Atlas.isMarker, hn]
      rfl
    · rw [atlas, findType?_claim]
      exact congrArg some same
  · refine .inl ⟨fun marker => (by cases marker), fun open_ => (by cases open_),
      fun ref mem => (by cases mem), listed_empty _, fun _ identity method asked leads => ?_⟩
    -- the name of a primitive is not the identity of a method
    obtain ⟨found, hf, describes⟩ := consistent.described identity.slot id leads
    rw [hn] at hf
    cases hf
    have plain := h.plain identity method asked
    obtain ⟨package, spelling⟩ := describes.names plain
    have slot : identity.slot = (Name.bare canonical).slot := by
      rw [Name.slot, Name.slot, package, spelling]
      rfl
    have spells : Atlas.primitive? (Name.bare canonical) = some canonical := spelled
    rw [Atlas.primitive?_of_slot slot, spells] at plain
    cases plain

theorem start (fresh : walk.claim name = ((id, true), claimed)) :
    Tidy met pending (claimed.start name) := by
  have atlas : (claimed.start name).atlas = (walk.claim name).2.atlas := by rw [fresh]; rfl
  refine h.claim atlas (fun other mem => ?_) fun _ => List.mem_cons_self
  have same := (onward_claim walk name).busy
  rw [fresh] at same
  exact List.mem_cons_of_mem _ (same ▸ mem)

theorem claim_old (old : walk.claim name = ((id, false), claimed)) : Tidy met pending claimed := by
  have atlas : claimed.atlas = (walk.claim name).2.atlas := by rw [old]
  have same := (onward_claim walk name).busy
  rw [old] at same
  refine h.claim atlas (fun other mem => same ▸ mem) fun marker => ?_
  have fresh : (walk.claim name).1.2 = false := by rw [old]
  have both : ((walk.claim name).2.atlas.isMarker (walk.claim name).1.1
      && !walk.busy.contains name) = false := fresh
  rw [← atlas, marker, Bool.true_and, Bool.not_eq_false', List.contains_iff_mem] at both
  exact same ▸ both

end

end Tidy

/-! ## Describing a node -/

/-- A kind that may be given to a node. -/
structure Allowed (met : Topic → Prop) (atlas : Atlas) (id : NodeId) (kind : Kind) : Prop where
  known : kind.isUnknown = false
  finished : kind ≠ .declaration none
  bounded : ∀ ref ∈ kind.refs, ref < atlas.nodeCount
  function : Topic.Apart met → ∀ identity method, met (.method identity method) →
    atlas.findType? identity = some id → kind.isFunc = true

/-- A kind may be given to the node of a type, as far as names are concerned. -/
theorem Tidy.function_of_type (h : Tidy met pending walk) {expr : TypeExpr}
    (asked : met (.type name expr)) (found : walk.atlas.findType? name = some id) (kind : Kind) :
    Topic.Apart met → ∀ identity method, met (.method identity method) →
      walk.atlas.findType? identity = some id → kind.isFunc = true := by
  intro apart identity method askedMethod leads
  have same := h.consistent.slot_eq (h.plain _ _ askedMethod) leads found
  exact absurd same (apart name expr identity method asked askedMethod)

namespace Tidy

section

variable (h : Tidy met pending walk)

include h

theorem resolve {kind : Kind} (allowed : Allowed met walk.atlas id kind) :
    Tidy met pending { walk with atlas := walk.atlas.resolve id kind } := by
  have grown := Atlas.Extends.resolve walk.atlas id kind
  have consistent := h.consistent.resolve id kind
  refine h.later grown.bound consistent (fun _ mem => mem) fun place node hn => ?_
  dsimp only at hn ⊢
  unfold Atlas.resolve at hn
  split at hn
  · rw [Atlas.node?_updateNode] at hn
    split at hn
    · next same =>
      subst same
      obtain ⟨old, there, rfl⟩ := Option.map_eq_some_iff.1 hn
      refine .inl ⟨fun marker => ?_, fun undeclared => ?_, fun ref mem => ?_, ?_, ?_⟩
      · rw [Node.isResolved, allowed.known] at marker
        cases marker
      · exact absurd undeclared allowed.finished
      · exact Nat.lt_of_lt_of_le (allowed.bounded ref mem) grown.nodeCount_le
      · exact (h.fits place old there).listed.later grown.bound
      · intro apart identity method asked leads
        have lt := (walk.atlas.lt_nodeCount_iff place).2 ⟨old, there⟩
        exact .inr (allowed.function apart identity method asked
          (Atlas.Leading.findType?_of_lt grown.bound h.consistent consistent (h.plain _ _ asked)
            leads lt))
    · exact .inr ⟨node, hn, rfl, .inl rfl⟩
  · exact .inr ⟨node, hn, rfl, .inl rfl⟩

/-- A name need not be busy any more when its node is described. -/
theorem drop (found : walk.atlas.findType? name = some id)
    (resolved : walk.atlas.isMarker id = false) :
    Tidy met pending { walk with busy := walk.busy.erase name } where
  plain := h.plain
  consistent := h.consistent
  fits place node hn := by
    have fits := h.fits place node hn
    refine ⟨fun marker => ?_, fits.declared, fits.bounded, fits.listed, fits.function⟩
    obtain ⟨other, mem, leads⟩ := fits.marker marker
    have apart : other ≠ name := by
      rintro rfl
      obtain rfl := Option.some.inj (leads.symm.trans found)
      rw [Atlas.isMarker, hn, Option.any_some, marker] at resolved
      cases resolved
    exact ⟨other, (List.mem_erase_of_ne apart).2 mem, leads⟩

theorem finish (found : walk.atlas.findType? name = some id) {kind : Kind}
    (allowed : Allowed met walk.atlas id kind) : Tidy met pending (walk.finish id name kind) := by
  have grown := Atlas.Extends.resolve walk.atlas id kind
  refine (h.resolve allowed).drop (grown.findType? found) ?_
  show (walk.atlas.resolve id kind).isMarker id = false
  unfold Atlas.resolve
  split
  · rw [Atlas.isMarker, Atlas.node?_updateNode, if_pos rfl]
    cases walk.atlas.node? id with
    | none => rfl
    | some node =>
      rw [Option.map_some, Option.any_some, Node.isResolved, allowed.known]
      rfl
  · next described => exact eq_false_of_ne_true described

/-- A node may be rewritten in its comments and its methods. -/
theorem rewrite (id : NodeId) {f : Node → Node} (name : ∀ node, (f node).name = node.name)
    (kind : ∀ node, (f node).kind.bare = node.kind.bare)
    (methods : ∀ node, (f node).methods = node.methods ∨ Listed met walk.atlas (f node).methods) :
    Tidy met pending { walk with atlas := walk.atlas.updateNode id f } := by
  have consistent : (walk.atlas.updateNode id f).Consistent := by
    refine h.consistent.updateNode id fun node _ slot described => ?_
    refine described.rewrite (name node) (fun primitive => ?_) fun underlying declaration => ?_
    · have same := kind node
      rw [primitive] at same
      exact Kind.bare_eq_primitive.1 same
    · have same := kind node
      rw [declaration] at same
      exact ⟨underlying, Kind.bare_eq_declaration.1 same⟩
  refine h.later (fun _ _ found => found) consistent (fun _ mem => mem) fun place node hn => ?_
  dsimp only at hn
  rw [Atlas.node?_updateNode] at hn
  split at hn
  · next same =>
    obtain ⟨old, there, rfl⟩ := Option.map_eq_some_iff.1 hn
    exact .inr ⟨old, same ▸ there, kind old, methods old⟩
  · exact .inr ⟨node, hn, rfl, .inl rfl⟩

theorem setMethods (id : NodeId) {methods : Table NodeId} (listed : Listed met walk.atlas methods) :
    Tidy met pending (walk.setMethods id methods) := by
  unfold Walk.setMethods
  split
  · exact h
  · exact h.rewrite id (fun _ => rfl) (fun _ => rfl) fun _ => .inr listed

theorem setMethodComments (id : NodeId) (comments : List String) :
    Tidy met pending (walk.setMethodComments id comments) := by
  refine h.rewrite id (fun node => ?_) (fun node => ?_) fun node => .inl ?_
  · split <;> rfl
  · split
    · next signature func =>
      rw [func]
      rfl
    · rfl
  · split <;> rfl

theorem attachDoc (lookup : Lookup) (id : NodeId) (pos : Option Position) :
    Tidy met pending (walk.attachDoc lookup id pos) := by
  unfold Walk.attachDoc
  split
  · exact h
  · exact h.rewrite id (fun _ => rfl) (fun _ => rfl) fun _ => .inl rfl

end

/-! ## Declarations -/

theorem weaken (h : Tidy met none walk) (pending : Option NodeId) : Tidy met pending walk where
  plain := h.plain
  consistent := h.consistent
  fits id node hn := by
    have fits := h.fits id node hn
    refine ⟨fits.marker, fun undeclared => ?_, fits.bounded, fits.listed, fits.function⟩
    cases fits.declared undeclared

/-- A new declaration is the one that is being made. -/
theorem declarationNode (h : Tidy met none walk) (sort : DeclarationSort) (name : Name) :
    Tidy met (some (walk.atlas.declarationNode sort name).1)
      { walk with atlas := (walk.atlas.declarationNode sort name).2 } := by
  have consistent := h.consistent.declarationNode sort name
  rw [Atlas.declarationNode_eq] at consistent ⊢
  cases free : walk.atlas.target? ⟨name.package, name.name, .declaration sort⟩ with
  | some id => exact h.weaken _
  | none =>
    rw [free] at consistent
    refine (h.weaken _).later (Atlas.Extends.addNode free _).bound consistent (fun _ mem => mem)
      fun id node hn => ?_
    dsimp only at hn consistent ⊢
    rw [Atlas.node?_addNode] at hn
    split at hn
    · next new =>
      cases hn
      refine .inl ⟨nofun, fun _ => congrArg some new.symm, nofun, listed_empty _,
        fun _ identity method asked leads => ?_⟩
      -- the name of a type does not lead to a declaration
      have bound : (walk.atlas.addNode ⟨name.package, name.name, .declaration sort⟩
          { name, kind := .declaration none }).target? ⟨name.package, name.name, .declaration sort⟩
            = some id := by
        rw [Atlas.target?_addNode, if_pos rfl, new]
      have same := consistent.apart _ identity.slot id bound leads
      have plain : identity.slot.primitive? = none := h.plain identity method asked
      rw [Slot.canonical_eq_self plain] at same
      cases congrArg Slot.shelf same
    · exact .inr ⟨node, hn, rfl, .inl rfl⟩

/-- A declaration that has its type is made. -/
theorem declare (h : Tidy met (some id) walk) {underlying : NodeId}
    (there : underlying < walk.atlas.nodeCount) :
    Tidy met none { walk with atlas := walk.atlas.declare id underlying } := by
  have consistent := h.consistent.declare id underlying
  refine ⟨h.plain, consistent, fun place node hn => ?_⟩
  dsimp only at hn
  unfold Atlas.declare at hn ⊢
  by_cases undeclared : walk.atlas.isUndeclared id = true
  · rw [if_pos undeclared] at hn ⊢
    rw [Atlas.node?_updateNode] at hn
    split at hn
    · next same =>
      subst same
      obtain ⟨old, hold, rfl⟩ := Option.map_eq_some_iff.1 hn
      have fits := h.fits place old hold
      have kind : old.kind = .declaration none := by
        rw [Atlas.isUndeclared, hold, Option.any_some] at undeclared
        exact eq_of_beq undeclared
      refine ⟨fun marker => ?_, fun open_ => ?_, fun ref mem => ?_, fits.listed,
        fun apart identity method asked leads => ?_⟩
      · cases marker
      · cases open_
      · rw [List.mem_singleton.1 mem]
        simpa using there
      · rcases fits.function apart identity method asked leads with marker | func
        · rw [Node.isResolved, kind] at marker
          cases marker
        · rw [kind] at func
          cases func
    · next other =>
      have fits := h.fits place node hn
      refine ⟨fits.marker, fun open_ => ?_, ?_, fits.listed, fits.function⟩
      · exact absurd (Option.some.inj (fits.declared open_)).symm other
      · simpa using fits.bounded
  · rw [if_neg undeclared] at hn ⊢
    have fits := h.fits place node hn
    refine ⟨fits.marker, fun open_ => ?_, fits.bounded, fits.listed, fits.function⟩
    obtain rfl := Option.some.inj (fits.declared open_)
    refine absurd ?_ undeclared
    rw [Atlas.isUndeclared, hn, Option.any_some, open_]
    rfl

end Tidy

end Walk

end GoAtlas
