import GoAtlas.Proofs.Atlas.View
import GoAtlas.Proofs.Walk.Guided

/-!
# What a walk leaves alone

A walk adds to the atlas and takes nothing back: names lead where they led, and a
node that was described before keeps its kind and its methods; only the comments
of a method are written again (`Node.Kept`, `Atlas.Extends`). And a walk leaves
the busy names as it found them. `Onward` is both together, and every part of the
walk goes onward, in any atlas and with any names busy.

A relation between walks that the single changes of a walk are in holds between
the walks before and after any part of it (`Carries`).

The one change that is no extension by itself is to give methods to a node that
has its kind. It is one seen from before the node was claimed, so the laws below
speak of what a state was before the claim (`Onward.rewrite`).
-/

namespace GoAtlas

/-! ## Nodes and atlases -/

/-- A kind without the comment of a function. -/
def Kind.quiet : Kind → Kind
  | .func signature => .func signature.bare
  | kind => kind

@[simp] theorem Kind.isUnknown_quiet (kind : Kind) : kind.quiet.isUnknown = kind.isUnknown := by
  cases kind <;> rfl

/-- What a walk keeps of a node. A marker may still become anything. -/
structure Node.Kept (node later : Node) : Prop where
  name : later.name = node.name
  earlierComments : later.earlierComments = node.earlierComments
  described : node.isResolved = true →
    later.kind.quiet = node.kind.quiet ∧ later.methods = node.methods

namespace Node.Kept

variable {node between later : Node}

theorem refl (node : Node) : node.Kept node :=
  ⟨rfl, rfl, fun _ => ⟨rfl, rfl⟩⟩

theorem isResolved (h : node.Kept later) (resolved : node.isResolved = true) :
    later.isResolved = true := by
  rw [Node.isResolved, ← Kind.isUnknown_quiet, (h.described resolved).1, Kind.isUnknown_quiet]
  exact resolved

theorem trans (h : node.Kept between) (h' : between.Kept later) : node.Kept later where
  name := h'.name.trans h.name
  earlierComments := h'.earlierComments.trans h.earlierComments
  described resolved := by
    obtain ⟨kind, methods⟩ := h.described resolved
    obtain ⟨kind', methods'⟩ := h'.described (h.isResolved resolved)
    exact ⟨kind'.trans kind, methods'.trans methods⟩

end Node.Kept

namespace Atlas

/-- The later atlas has all names and all nodes of the earlier one. -/
structure Extends (before after : Atlas) : Prop where
  bound : ∀ slot id, before.target? slot = some id → after.target? slot = some id
  kept : ∀ id node, before.node? id = some node →
    ∃ later, after.node? id = some later ∧ node.Kept later

/-- The node at a place, if there is one, is still a marker. -/
def Undescribed (atlas : Atlas) (id : NodeId) : Prop :=
  ∀ node, atlas.node? id = some node → node.isResolved = false

section Steps

variable {relates : Atlas → Atlas → Prop} (refl : ∀ atlas, relates atlas atlas)
  (trans : ∀ {first second third}, relates first second → relates second third →
    relates first third)
  (addNode : ∀ (atlas : Atlas) (name : Name) node, atlas.target? name.slot = none →
    relates atlas (atlas.addNode name.slot node))
  (bind : ∀ (atlas : Atlas) (name : Name) id, atlas.target? name.slot = none →
    relates atlas (atlas.bind name.slot id))

include refl addNode in
theorem primitiveNode_steps (atlas : Atlas) (canonical : String) :
    relates atlas (atlas.primitiveNode canonical).2 := by
  unfold primitiveNode
  cases found : atlas.findType? (.bare canonical) with
  | some id => exact refl atlas
  | none => exact addNode atlas (.bare canonical) _ found

include refl trans addNode bind in
/-- Asking for a type name binds free names, to a new node or to the node of a primitive,
and does nothing else. -/
theorem typeNode_steps (atlas : Atlas) (name : Name) :
    relates atlas (atlas.typeNode name).2 := by
  cases found : atlas.findType? name with
  | some id =>
    rw [typeNode, found]
    exact refl atlas
  | none =>
    cases primitive : primitive? name with
    | none =>
      rw [typeNode_of_free found primitive]
      exact addNode atlas name _ found
    | some canonical =>
      rw [typeNode, found, primitive]
      dsimp only
      split
      · exact primitiveNode_steps refl addNode atlas canonical
      · next differs =>
        rw [bindType_eq_bind]
        refine trans (primitiveNode_steps refl addNode atlas canonical) (bind _ _ _ ?_)
        -- the node of a primitive is bound to its canonical spelling, which is another one
        have free : atlas.target? (Name.bare name.name).slot = none :=
          slot_bare_of_primitive primitive ▸ found
        have other : (Name.bare name.name).slot ≠ (Name.bare canonical).slot :=
          fun same => differs (congrArg Slot.name same).symm
        unfold primitiveNode
        split
        · exact free
        · rw [addType_eq_addNode, target?_addNode, if_neg other, free]

end Steps

namespace Extends

variable {before between after atlas : Atlas} {slot : Slot} {id : NodeId}

theorem refl (atlas : Atlas) : atlas.Extends atlas :=
  ⟨fun _ _ found => found, fun _ node hn => ⟨node, hn, .refl node⟩⟩

theorem trans (h : before.Extends between) (h' : between.Extends after) :
    before.Extends after where
  bound slot id found := h'.bound slot id (h.bound slot id found)
  kept id node hn := by
    obtain ⟨middle, hm, first⟩ := h.kept id node hn
    obtain ⟨later, hl, second⟩ := h'.kept id middle hm
    exact ⟨later, hl, first.trans second⟩

theorem findType? (h : before.Extends after) {name : Name}
    (found : before.findType? name = some id) : after.findType? name = some id :=
  h.bound name.slot id found

theorem nodeCount_le (h : before.Extends after) : before.nodeCount ≤ after.nodeCount := by
  refine Nat.le_of_not_lt fun lt => ?_
  obtain ⟨node, hn⟩ := (before.lt_nodeCount_iff _).1 lt
  obtain ⟨later, hl, -⟩ := h.kept _ node hn
  exact Nat.lt_irrefl _ ((after.lt_nodeCount_iff _).2 ⟨later, hl⟩)

/-- A free slot may be bound to a new node. -/
theorem addNode (free : atlas.target? slot = none) (node : Node) :
    atlas.Extends (atlas.addNode slot node) where
  bound other id found := by
    rw [target?_addNode, if_neg, found]
    rintro rfl
    rw [free] at found
    cases found
  kept id old hn := ⟨old, node?_addNode_of_some hn, .refl old⟩

/-- A free slot may be bound to an old node. -/
theorem bind (free : atlas.target? slot = none) (id : NodeId) :
    atlas.Extends (atlas.bind slot id) where
  bound other target found := by
    rw [target?_bind, if_neg, found]
    rintro rfl
    rw [free] at found
    cases found
  kept other node hn := ⟨node, hn, .refl node⟩

/-- A node may be rewritten into one that keeps it. -/
theorem updateNode {f : Node → Node}
    (keeps : ∀ node, atlas.node? id = some node → node.Kept (f node)) :
    atlas.Extends (atlas.updateNode id f) where
  bound _ _ found := found
  kept other node hn := by
    rw [node?_updateNode]
    split
    · next eq =>
      subst eq
      exact ⟨f node, by rw [hn]; rfl, keeps node hn⟩
    · exact ⟨node, hn, .refl node⟩

/-- A node that was a marker before may be rewritten under its name. -/
theorem rewrite (h : before.Extends after) (undescribed : before.Undescribed id) {f : Node → Node}
    (name : ∀ node, (f node).name = node.name)
    (earlier : ∀ node, (f node).earlierComments = node.earlierComments) :
    before.Extends (after.updateNode id f) where
  bound := h.bound
  kept other node hn := by
    obtain ⟨later, hl, kept⟩ := h.kept other node hn
    rw [node?_updateNode]
    split
    · next eq =>
      subst eq
      refine ⟨f later, by rw [hl]; rfl, (name later).trans kept.name,
        (earlier later).trans kept.earlierComments, fun resolved => ?_⟩
      rw [undescribed node hn] at resolved
      cases resolved
    · exact ⟨later, hl, kept⟩

theorem typeNode (atlas : Atlas) (name : Name) : atlas.Extends (atlas.typeNode name).2 :=
  typeNode_steps refl trans (fun _ _ node free => addNode free node)
    (fun _ _ id free => bind free id) atlas name

theorem resolve (atlas : Atlas) (id : NodeId) (kind : Kind) :
    atlas.Extends (atlas.resolve id kind) := by
  unfold Atlas.resolve
  split
  · next marker =>
    refine updateNode fun node hn => ⟨rfl, rfl, fun resolved => ?_⟩
    rw [isMarker, hn, Option.any_some, resolved] at marker
    cases marker
  · exact refl atlas

end Extends

end Atlas

namespace Walk

/-! ## Changes of a walk -/

/-- The atlas was extended, and the same names are busy. -/
structure Onward (before after : Walk) : Prop where
  atlas : before.atlas.Extends after.atlas
  busy : after.busy = before.busy

variable {base before walk after claimed : Walk} {name : Name} {id : NodeId}

theorem Onward.refl (walk : Walk) : walk.Onward walk :=
  ⟨.refl _, rfl⟩

theorem Onward.trans (h : before.Onward walk) (h' : walk.Onward after) : before.Onward after :=
  ⟨h.atlas.trans h'.atlas, h'.busy.trans h.busy⟩

theorem onward_claim (walk : Walk) (name : Name) : walk.Onward (walk.claim name).2 :=
  ⟨.typeNode walk.atlas name, rfl⟩

/-- A name that is to be described was a marker before, if it was there at all. -/
theorem undescribed_of_claim (fresh : walk.claim name = ((id, true), claimed)) :
    walk.atlas.Undescribed id := by
  intro node hn
  obtain ⟨later, hl, kept⟩ := (onward_claim walk name).atlas.kept id node hn
  have marker := (fresh_of_claim fresh).1
  rw [fresh] at hl
  rw [Atlas.isMarker, hl, Option.any_some, Bool.not_eq_true'] at marker
  refine eq_false_of_ne_true fun resolved => ?_
  rw [kept.isResolved resolved] at marker
  cases marker

theorem onward_setMethodComments (walk : Walk) (id : NodeId) (comments : List String) :
    walk.Onward (walk.setMethodComments id comments) := by
  refine ⟨.updateNode fun node _ => ?_, rfl⟩
  split
  · next signature func =>
    refine ⟨rfl, rfl, fun _ => ⟨?_, rfl⟩⟩
    rw [func]
    rfl
  · exact ⟨rfl, rfl, fun _ => ⟨rfl, rfl⟩⟩

/-- A node that was a marker may be given methods. -/
theorem Onward.setMethods (h : base.Onward walk) (undescribed : base.atlas.Undescribed id)
    (methods : Table NodeId) : base.Onward (walk.setMethods id methods) := by
  unfold Walk.setMethods
  split
  · exact h
  · exact ⟨h.atlas.rewrite undescribed (fun _ => rfl) fun _ => rfl, h.busy⟩

/-- A name that was claimed is described, and not busy any more. -/
theorem Onward.finish (fresh : walk.claim name = ((id, true), claimed))
    (h : (claimed.start name).Onward after) (kind : Kind) :
    walk.Onward (after.finish id name kind) := by
  have claim : walk.Onward claimed := by
    have goes := onward_claim walk name
    rwa [fresh] at goes
  refine ⟨(claim.atlas.trans h.atlas).trans (.resolve _ _ _), ?_⟩
  show after.busy.erase name = walk.busy
  rw [h.busy, ← claim.busy]
  exact List.erase_cons_head ..

/-- Methods leave a consistent atlas consistent. -/
theorem consistent_setMethods (start : walk.atlas.Consistent) (id : NodeId)
    (methods : Table NodeId) : (walk.setMethods id methods).atlas.Consistent := by
  unfold setMethods
  split
  · exact start
  · exact start.updateNode _ fun _ _ _ described =>
      described.rewrite rfl (fun kind => kind) fun underlying kind => ⟨underlying, kind⟩

theorem consistent_setMethodComments (start : walk.atlas.Consistent) (id : NodeId)
    (lines : List String) : (walk.setMethodComments id lines).atlas.Consistent := by
  refine start.updateNode _ fun node _ slot described => ?_
  split
  · -- a function is neither a primitive nor a declaration
    next signature kind =>
    refine described.rewrite rfl (fun other => ?_) fun underlying other => ?_
    · cases kind.symm.trans other
    · cases kind.symm.trans other
  · exact described.rewrite rfl (fun kind => kind) fun underlying kind => ⟨underlying, kind⟩

/-! ## Parts of a walk -/

/-- A relation between walks that the single changes of a walk are in. Every part of
a walk is in it then. -/
structure Carries (relates : Walk → Walk → Prop) : Prop where
  refl : ∀ walk, relates walk walk
  trans : ∀ {first second third}, relates first second → relates second third →
    relates first third
  findType? : ∀ {before after}, relates before after → ∀ name id,
    before.atlas.findType? name = some id → after.atlas.findType? name = some id
  claim : ∀ walk name, relates walk (walk.claim name).2
  resolve : ∀ walk id kind, relates walk { walk with atlas := walk.atlas.resolve id kind }
  /-- A name that was claimed is described, and not busy any more. -/
  finish : ∀ {walk claimed after name id}, walk.claim name = ((id, true), claimed) →
    relates (claimed.start name) after → ∀ kind, relates walk (after.finish id name kind)
  /-- A node that was a marker may be given methods. -/
  setMethods : ∀ {base walk id}, relates base walk → base.atlas.Undescribed id → ∀ methods,
    relates base (walk.setMethods id methods)
  /-- The comment of a method may be written. -/
  comment : ∀ {walk owner method id},
    walk.atlas.findType? (methodName owner method) = some id → ∀ comments,
      relates walk (walk.setMethodComments id comments)

namespace Carries

variable {relates : Walk → Walk → Prop} (carries : Carries relates)

include carries

theorem basic (walk : Walk) (name : String) : relates walk (walk.basic name).2 := by
  have claim := carries.claim walk (.bare name)
  unfold Walk.basic
  dsimp only
  split
  · exact claim
  · exact carries.trans claim (carries.resolve _ _ _)

theorem node {describe : Walk → (Kind × Table NodeId) × Walk}
    (describes : ∀ walk, relates walk (describe walk).2) (walk : Walk) (name : Name) :
    relates walk (walk.node name describe).2 := by
  have claim := carries.claim walk name
  unfold Walk.node
  cases claimed : walk.claim name with
  | mk answer after =>
    obtain ⟨id, fresh⟩ := answer
    rw [claimed] at claim
    cases fresh with
    | false => exact claim
    | true =>
      exact carries.setMethods (carries.finish claimed (describes _) _)
        (undescribed_of_claim claimed) _

/-- The name of a node leads to it. -/
theorem findType?_node {describe : Walk → (Kind × Table NodeId) × Walk}
    (describes : ∀ walk, relates walk (describe walk).2) (walk : Walk) (name : Name) :
    (walk.node name describe).2.atlas.findType? name = some (walk.node name describe).1 := by
  -- seen from after the claim the name is there, and claiming it again changes nothing
  have again := @claim_claimed walk (walk.claim name).2 name (walk.claim name).1 rfl
  have same : (walk.claim name).2.node name describe = walk.node name describe := by
    rw [Walk.node, Walk.node, again]
  rw [node_fst, ← same]
  exact carries.findType? (carries.node describes (walk.claim name).2 name) name _
    (findType?_claim walk name)

section Parts

variable (lookup : Lookup) {expand : String → String → Walk → NodeId × Walk}
  (expands : ∀ package name walk, relates walk (expand package name walk).2)

include expands

/-- The relation needs no guidance. -/
theorem guides : Guides lookup expand (fun _ => True)
    (fun identity _ => ∃ owner called, identity = methodName owner called) relates where
  refl := carries.refl
  trans := carries.trans
  basic _ walk := carries.basic walk _
  named _ walk := expands _ _ walk
  node _ _ describes walk := carries.node describes walk _
  method := by
    rintro _ expr ⟨owner, called, rfl⟩ describes walk
    rw [method_eq_node]
    exact carries.trans (carries.node describes walk _)
      (carries.comment (carries.findType?_node describes walk _) _)
  askedPart _ _ _ _ := trivial
  askedMethod _ _ _ := TypeExpr.required_path
  askedSignature _ _ _ := trivial

theorem describe (expr : TypeExpr) (owner : Name) (walk : Walk) :
    relates walk (Walk.describe lookup expand owner expr walk).2 :=
  (carries.guides lookup expands).describe expr owner (fun _ _ => trivial)
    (fun _ => TypeExpr.required_path) walk

theorem type (useName : Option Name) (expr : TypeExpr) (walk : Walk) :
    relates walk (Walk.type lookup expand useName expr walk).2 := by
  by_cases composite : expr.isComposite = true
  · rw [type_eq_node lookup expand useName composite]
    exact carries.node (carries.describe lookup expands expr _) walk _
  · cases expr with
    | basic name => exact carries.basic walk name
    | named package name => exact expands package name walk
    | _ => exact absurd rfl composite

theorem methodsOf (ownerOf : MethodExpr → Name) (methods : List MethodExpr)
    (known : Table NodeId) (walk : Walk) :
    relates walk (Walk.methodsOf lookup expand ownerOf methods known walk).2 :=
  (carries.guides lookup expands).methodsOf ownerOf methods (fun _ _ => ⟨_, _, rfl⟩) known walk

theorem addMethods (related : relates base walk) (undescribed : base.atlas.Undescribed id)
    (name : Name) (definition : Definition) :
    relates base (Walk.addMethods lookup expand walk id name definition) := by
  unfold Walk.addMethods
  split
  · exact carries.setMethods (carries.trans related (carries.methodsOf lookup expands _ _ _ _))
      undescribed _
  · exact related

theorem defineKind (fresh : walk.claim name = ((id, true), claimed)) (definition : Definition) :
    relates walk (Walk.defineKind lookup expand claimed id name definition) := by
  unfold Walk.defineKind
  split
  · exact carries.finish fresh (carries.type lookup expands none _ _) _
  · have claim := carries.claim walk name
    rw [fresh] at claim
    exact carries.trans claim (carries.type lookup expands _ _ _)

theorem define (fresh : walk.claim name = ((id, true), claimed)) (definition : Definition) :
    relates walk (Walk.define lookup expand claimed id name definition) := by
  rw [define_eq]
  exact carries.addMethods lookup expands (carries.defineKind lookup expands fresh definition)
    (undescribed_of_claim fresh) name definition

end Parts

/-- Named types are in the relation, however many definitions may be entered. -/
theorem named (lookup : Lookup) (depth : Nat) (package name : String) (walk : Walk) :
    relates walk (Walk.named lookup depth package name walk).2 := by
  induction depth generalizing package name walk with
  | zero => exact carries.claim walk _
  | succ depth ih =>
    have claim := carries.claim walk { package, name }
    unfold Walk.named
    cases claimed : walk.claim { package, name } with
    | mk answer after =>
      obtain ⟨id, fresh⟩ := answer
      rw [claimed] at claim
      cases fresh with
      | false => exact claim
      | true =>
        dsimp only
        rw [if_pos rfl]
        split
        · exact carries.trans claim (carries.resolve _ _ _)
        · exact carries.define lookup ih claimed _

theorem addType (lookup : Lookup) (useName : Option Name) (expr : TypeExpr) (walk : Walk) :
    relates walk (Walk.addType lookup useName expr walk).2 :=
  carries.type lookup (carries.named lookup (depthBound lookup)) useName expr walk

end Carries

/-! ## A walk goes onward -/

/-- Every part of a walk goes onward. -/
theorem carries_onward : Carries Onward where
  refl := .refl
  trans := .trans
  findType? onward _ _ found := onward.atlas.findType? found
  claim := onward_claim
  resolve _ _ _ := ⟨.resolve _ _ _, rfl⟩
  finish := .finish
  setMethods := .setMethods
  comment _ := onward_setMethodComments _ _

section Parts

variable (lookup : Lookup) {expand : String → String → Walk → NodeId × Walk}
  (expands : ∀ package name walk, Onward walk (expand package name walk).2)

include expands

theorem onward_describe (expr : TypeExpr) (owner : Name) (walk : Walk) :
    walk.Onward (describe lookup expand owner expr walk).2 :=
  carries_onward.describe lookup expands expr owner walk

theorem onward_types (exprs : List TypeExpr) (walk : Walk) :
    walk.Onward (types lookup expand exprs walk).2 :=
  (carries_onward.guides lookup expands).types exprs (fun _ _ => trivial) walk

theorem onward_members (fields : List FieldExpr) (walk : Walk) :
    walk.Onward (members lookup expand fields walk).2 :=
  (carries_onward.guides lookup expands).members fields (fun _ _ => trivial) walk

theorem onward_receiverOf (receiver : Option TypeExpr) (walk : Walk) :
    walk.Onward (receiverOf lookup expand receiver walk).2 :=
  (carries_onward.guides lookup expands).receiverOf receiver (fun _ _ => trivial) walk

/-- A method goes onward under any name. -/
theorem onward_method (expr : MethodExpr) (name : Name) (walk : Walk) :
    walk.Onward (method lookup expand name expr walk).2 := by
  rw [method_eq_node]
  have describes := onward_describe lookup expands (.func expr.signature) name
  exact (carries_onward.node describes walk name).trans (onward_setMethodComments _ _ _)

theorem onward_type (useName : Option Name) (expr : TypeExpr) (walk : Walk) :
    walk.Onward (type lookup expand useName expr walk).2 :=
  carries_onward.type lookup expands useName expr walk

theorem Onward.defineKind (fresh : walk.claim name = ((id, true), claimed))
    (definition : Definition) :
    walk.Onward (Walk.defineKind lookup expand claimed id name definition) :=
  carries_onward.defineKind lookup expands fresh definition

end Parts

theorem onward_named (lookup : Lookup) (depth : Nat) (package name : String) (walk : Walk) :
    walk.Onward (named lookup depth package name walk).2 :=
  carries_onward.named lookup depth package name walk

end Walk

end GoAtlas
