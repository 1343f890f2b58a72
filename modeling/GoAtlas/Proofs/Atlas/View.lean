import GoAtlas.Proofs.Atlas.Registry

/-!
# What an atlas shows

`Atlas.view` reads an atlas as a partial map from type names to nodes, with the
comments left out. Making a node extends the map, describing a node changes it
at one name, and a comment does not change it. `Atlas.Grows` is extension of the
map: whatever a name showed, it still shows.
-/

namespace GoAtlas

/-! ## Nodes without comments -/

/-- A member without its comment. -/
def Member.bare (member : Member) : Member :=
  { member with comments := [] }

/-- A signature without its comment. -/
def Signature.bare (signature : Signature) : Signature :=
  { signature with comments := [] }

/-- A kind without the comments of its parts. -/
def Kind.bare : Kind → Kind
  | .struct members => .struct (members.map Member.bare)
  | .func signature => .func signature.bare
  | kind => kind

/-- A node without comments. -/
def Node.bare (node : Node) : Node :=
  { node with kind := node.kind.bare, comments := [], earlierComments := [] }

@[simp] theorem Kind.isUnknown_bare (kind : Kind) : kind.bare.isUnknown = kind.isUnknown := by
  cases kind <;> rfl

/-! ## References -/

/-- The nodes a signature refers to. -/
def Signature.refs (signature : Signature) : List NodeId :=
  signature.parameters ++ signature.results ++ signature.receiver.toList

namespace Kind

/-- The nodes a kind refers to. -/
def refs : Kind → List NodeId
  | .struct members => members.map Member.type
  | .map key elem => [key, elem]
  | .slice elem | .array elem | .pointer elem | .chan elem => [elem]
  | .func signature => signature.refs
  | .aliasOf underlying => [underlying]
  | .declaration underlying => underlying.toList
  | .unknown | .primitive | .interface | .unsupported => []

@[simp] theorem refs_bare (kind : Kind) : kind.bare.refs = kind.refs := by
  cases kind with
  | struct members => exact List.map_map ..
  | _ => rfl

end Kind

namespace Atlas

variable {name other : Name} {id : NodeId} {spelling : String}

/-- The node of a type name and its place, without comments. -/
def view (atlas : Atlas) (name : Name) : Option (NodeId × Node) :=
  (atlas.findType? name).bind fun id => (atlas.node? id).map fun node => (id, node.bare)

/-- Whatever a name shows in the first atlas, it shows in the second. -/
def Grows (before after : Atlas) : Prop :=
  ∀ name shown, before.view name = some shown → after.view name = some shown

theorem Grows.refl (atlas : Atlas) : Grows atlas atlas :=
  fun _ _ shown => shown

theorem Grows.trans {a b c : Atlas} (h : Grows a b) (k : Grows b c) : Grows a c :=
  fun name _ shown => k name _ (h name _ shown)

theorem view_eq_some {atlas : Atlas} {shown : Node} :
    atlas.view name = some (id, shown) ↔
      atlas.findType? name = some id ∧ ∃ node, atlas.node? id = some node ∧ node.bare = shown := by
  unfold view
  constructor
  · intro h
    obtain ⟨id', found, h⟩ := Option.bind_eq_some_iff.1 h
    obtain ⟨node, hn, eq⟩ := Option.map_eq_some_iff.1 h
    cases eq
    exact ⟨found, node, hn, rfl⟩
  · rintro ⟨found, node, hn, rfl⟩
    rw [found, Option.bind_some, hn]
    rfl

variable {shown : NodeId × Node}

theorem findType?_of_view {atlas : Atlas} (h : atlas.view name = some shown) :
    atlas.findType? name = some shown.1 :=
  (view_eq_some.1 h).1

/-- Only the slot of a name counts. -/
theorem view_of_slot (atlas : Atlas) (h : name.slot = other.slot) :
    atlas.view name = atlas.view other := by
  unfold view
  rw [findType?_eq_target?, findType?_eq_target?, h]

variable {atlas : Atlas}

/-- A name that leads somewhere shows a node. -/
theorem Consistent.view_of_findType? (h : atlas.Consistent) {name : Name} {id : NodeId}
    (found : atlas.findType? name = some id) : ∃ shown, atlas.view name = some (id, shown) := by
  obtain ⟨node, hn, -⟩ := h.described name.slot id found
  exact ⟨node.bare, view_eq_some.2 ⟨found, node, hn, rfl⟩⟩

theorem Consistent.findType?_eq_none (h : atlas.Consistent) (free : atlas.view name = none) :
    atlas.findType? name = none := by
  cases found : atlas.findType? name with
  | none => rfl
  | some id =>
    obtain ⟨shown, hv⟩ := h.view_of_findType? found
    rw [free] at hv
    cases hv

/-- Where an atlas grows, names lead where they led. -/
theorem Grows.findType? {before after : Atlas} (h : Grows before after)
    (consistent : before.Consistent) (found : before.findType? name = some id) :
    after.findType? name = some id := by
  obtain ⟨shown, hv⟩ := consistent.view_of_findType? found
  exact findType?_of_view (h name _ hv)

/-! ## Changes of the view -/

/-- A new node shows under its name, and nothing else changes. -/
theorem view_addNode (consistent : atlas.Consistent) (name other : Name) (node : Node) :
    (atlas.addNode name.slot node).view other =
      if other.slot = name.slot then some (atlas.nodeCount, node.bare) else atlas.view other := by
  unfold view
  rw [findType?_eq_target?, target?_addNode]
  by_cases same : other.slot = name.slot
  · rw [if_pos same, if_pos same, Option.bind_some, node?_addNode, if_pos rfl]
    rfl
  · rw [if_neg same, if_neg same, ← findType?_eq_target?]
    cases found : atlas.findType? other with
    | none => rfl
    | some id =>
      obtain ⟨old, hn, -⟩ := consistent.described other.slot id found
      rw [Option.bind_some, Option.bind_some, node?_addNode_of_some hn, hn]

/-- The node of a name that spells no primitive is the node of that name alone. -/
theorem Consistent.slot_eq (h : atlas.Consistent) (plain : primitive? name = none)
    (found : atlas.findType? name = some id) (same : atlas.findType? other = some id) :
    other.slot = name.slot := by
  have eq := h.apart other.slot name.slot id same found
  have noPrimitive : name.slot.primitive? = none := plain
  have otherPlain : other.slot.primitive? = none := by
    rw [← other.slot.primitive?_canonical, eq, name.slot.primitive?_canonical, noPrimitive]
  rwa [Slot.canonical_eq_self noPrimitive, Slot.canonical_eq_self otherPlain] at eq

/-- A node rewritten shows under its name, and nothing else changes. -/
theorem view_updateNode (consistent : atlas.Consistent) {name : Name} {id : NodeId} {shown : Node}
    (plain : primitive? name = none) (found : atlas.view name = some (id, shown))
    {f g : Node → Node} (rewrites : ∀ node, (f node).bare = g node.bare) (other : Name) :
    (atlas.updateNode id f).view other =
      if other.slot = name.slot then some (id, g shown) else atlas.view other := by
  obtain ⟨place, node, hn, rfl⟩ := view_eq_some.1 found
  by_cases same : other.slot = name.slot
  · rw [if_pos same]
    refine view_eq_some.2 ⟨?_, f node, ?_, rewrites node⟩
    · rw [findType?_eq_target?, target?_updateNode, same]
      exact place
    · rw [node?_updateNode, if_pos rfl, hn]
      rfl
  · rw [if_neg same]
    unfold view
    rw [findType?_eq_target?, target?_updateNode, ← findType?_eq_target?]
    cases there : atlas.findType? other with
    | none => rfl
    | some id' =>
      have apart : id' ≠ id := by
        rintro rfl
        exact same (consistent.slot_eq plain place there)
      rw [Option.bind_some, Option.bind_some, node?_updateNode, if_neg apart]

/-- A node that is rewritten in its comments only shows what it showed. -/
theorem view_updateNode_comments (atlas : Atlas) (id : NodeId) {f : Node → Node}
    (keeps : ∀ node, (f node).bare = node.bare) (other : Name) :
    (atlas.updateNode id f).view other = atlas.view other := by
  unfold view
  rw [findType?_eq_target?, target?_updateNode, ← findType?_eq_target?]
  cases atlas.findType? other with
  | none => rfl
  | some id' =>
    rw [Option.bind_some, Option.bind_some, node?_updateNode]
    split
    · next eq =>
      rw [eq]
      cases atlas.node? id with
      | none => rfl
      | some node => simp only [Option.map_some, keeps]
    · rfl

/-- A name bound to the node of another name shows what that one shows. -/
theorem view_bind (atlas : Atlas) (found : atlas.view name = some shown) (alsoNamed other : Name) :
    (atlas.bind alsoNamed.slot shown.1).view other =
      if other.slot = alsoNamed.slot then some shown else atlas.view other := by
  obtain ⟨id, node⟩ := shown
  obtain ⟨-, node, hn, rfl⟩ := view_eq_some.1 found
  unfold view
  rw [findType?_eq_target?, target?_bind]
  by_cases same : other.slot = alsoNamed.slot
  · rw [if_pos same, if_pos same, Option.bind_some, node?_bind, hn]
    rfl
  · rw [if_neg same, if_neg same]
    rfl

/-! ## The node of a name -/

/-- A name that shows a node has that node. -/
theorem typeNode_of_view (found : atlas.view name = some shown) :
    atlas.typeNode name = (shown.1, atlas) := by
  rw [typeNode, findType?_of_view found]

/-- A free name that spells no primitive is given a marker. -/
theorem typeNode_of_free (free : atlas.findType? name = none) (plain : primitive? name = none) :
    atlas.typeNode name = (atlas.nodeCount, atlas.addNode name.slot (.marker name)) := by
  rw [typeNode, free, plain]
  rfl

/-- The nodes of primitives are primitives without methods. -/
def PrimitivesShown (atlas : Atlas) : Prop :=
  ∀ name spelling shown, primitive? name = some spelling → atlas.view name = some shown →
    shown.2.kind = .primitive ∧ shown.2.methods = ∅

/-- Two names, one of which spells a primitive, have one slot only if both do. -/
theorem primitive?_of_slot (h : name.slot = other.slot) : primitive? name = primitive? other := by
  have slots : name.slot.primitive? = other.slot.primitive? := by rw [h]
  exact slots

/-- The node of a primitive, made if there is none, is all that may be new. -/
theorem primitiveNode_spec (consistent : atlas.Consistent) (primitives : atlas.PrimitivesShown)
    (canonical : Primitive.canonical? spelling = some spelling) :
    ∃ shown, (atlas.primitiveNode spelling).2.view (.bare spelling) = some shown ∧
      (atlas.primitiveNode spelling).1 = shown.1 ∧
      (atlas.primitiveNode spelling).2.PrimitivesShown ∧
      Grows atlas (atlas.primitiveNode spelling).2 ∧
      ∀ other, primitive? other = none →
        (atlas.primitiveNode spelling).2.view other = atlas.view other := by
  have spells : primitive? (.bare spelling) = some spelling := canonical
  unfold primitiveNode
  cases found : atlas.findType? (.bare spelling) with
  | some id =>
    obtain ⟨shown, hv⟩ := consistent.view_of_findType? found
    exact ⟨(id, shown), hv, rfl, primitives, Grows.refl _, fun _ _ => rfl⟩
  | none =>
    have view := fun other => view_addNode consistent (.bare spelling) other
      { name := .bare spelling, kind := .primitive }
    refine ⟨_, (view _).trans (if_pos rfl), rfl, ?_, ?_, ?_⟩
    · intro name other shown primitive hv
      rw [addType_eq_addNode, view] at hv
      split at hv
      · cases hv
        exact ⟨rfl, rfl⟩
      · exact primitives name other shown primitive hv
    · intro name shown hv
      rw [addType_eq_addNode, view, if_neg, hv]
      intro same
      rw [view_of_slot atlas same] at hv
      rw [findType?_of_view hv] at found
      cases found
    · intro other plain
      rw [addType_eq_addNode, view, if_neg]
      intro same
      rw [primitive?_of_slot same, spells] at plain
      cases plain

/-- Asking for a primitive changes nothing but primitives. -/
theorem typeNode_primitive (consistent : atlas.Consistent) (primitives : atlas.PrimitivesShown)
    (spells : primitive? name = some spelling) :
    (atlas.typeNode name).2.findType? name = some (atlas.typeNode name).1 ∧
      (atlas.typeNode name).2.PrimitivesShown ∧ Grows atlas (atlas.typeNode name).2 ∧
      ∀ other, primitive? other = none → (atlas.typeNode name).2.view other = atlas.view other := by
  cases free : atlas.findType? name with
  | some id =>
    obtain ⟨shown, hv⟩ := consistent.view_of_findType? free
    rw [typeNode_of_view hv]
    exact ⟨free, primitives, Grows.refl _, fun _ _ => rfl⟩
  | none =>
    have canonical := (primitive?_eq_some spells).2
    obtain ⟨shown, found, place, shownPrimitives, grows, others⟩ :=
      primitiveNode_spec consistent primitives (Primitive.canonical?_canonical canonical)
    have sameSlot := slot_bare_of_primitive spells
    unfold typeNode
    rw [free, spells]
    simp only []
    split
    · next same =>
      refine ⟨?_, shownPrimitives, grows, others⟩
      rw [findType?_eq_target?, ← sameSlot, ← findType?_eq_target?, ← same, place]
      exact findType?_of_view found
    · next apart =>
      have view := view_bind _ found (.bare name.name)
      rw [bindType_eq_bind, place]
      have free' : ∀ other, other.slot = (Name.bare name.name).slot → atlas.view other = none := by
        intro other same
        rw [view_of_slot atlas (same.trans sameSlot), Atlas.view, free]
        rfl
      refine ⟨?_, ?_, ?_, ?_⟩
      · have named := (view name).trans (if_pos sameSlot.symm)
        exact findType?_of_view named
      · intro other spelled shown' primitive hv
        rw [view] at hv
        split at hv
        · cases hv
          exact shownPrimitives (.bare spelling) spelling _
            (Primitive.canonical?_canonical canonical) found
        · exact shownPrimitives other spelled shown' primitive hv
      · intro other shown' hv
        rw [view, if_neg, grows other shown' hv]
        intro same
        rw [free' other same] at hv
        cases hv
      · intro other plain
        rw [view, if_neg, others other plain]
        intro same
        rw [primitive?_of_slot (same.trans sameSlot), spells] at plain
        cases plain

end Atlas

end GoAtlas
