import GoAtlas.Proofs.TypeExpr.Leaves
import GoAtlas.Proofs.Walk.Tidy

/-!
# What a walk has no kind for

There are three places where a walk finds no kind: a primitive that is not registered, a type
that is only described, and a named type without a definition. The last two are a matter of the
types that are walked. Where the definitions cover what those refer to (`Definitions.Cover`),
every unsupported node is that of a primitive (`Atlas.Supported`), whatever was walked before
and wherever the walk is cut short.
-/

namespace GoAtlas

variable {p : TypeExpr → Prop}

theorem SignatureExpr.Every.parts {signature : SignatureExpr} (every : signature.Every p) :
    ∀ part ∈ signature.parts, part.Every p := by
  obtain ⟨receiver, params, results, variadic⟩ := signature
  obtain ⟨ofReceiver, ofParams, ofResults⟩ := every
  refine List.forall_mem_append.2 ⟨List.forall_mem_append.2
    ⟨everyType_iff.1 ofParams, everyType_iff.1 ofResults⟩, ?_⟩
  cases receiver with
  | none => exact List.forall_mem_nil _
  | some receiver => exact List.forall_mem_singleton.2 ofReceiver

theorem TypeExpr.Every.parts {expr : TypeExpr} (every : expr.Every p) :
    ∀ part ∈ expr.parts, part.Every p := by
  cases expr with
  | basic name | named package name | interface methods | other description =>
    exact List.forall_mem_nil _
  | pointer elem | slice elem | array length elem | chan direction elem =>
    exact List.forall_mem_singleton.2 every
  | map key elem => exact List.forall_mem_cons.2 ⟨every.1, List.forall_mem_singleton.2 every.2⟩
  | struct fields => exact List.forall_mem_map.2 (everyField_iff.1 every)
  | func signature => exact SignatureExpr.Every.parts every

theorem TypeExpr.Every.required {expr : TypeExpr} (every : expr.Every p) (owner : Name) :
    ∀ entry ∈ expr.required owner, entry.2.Every p := by
  cases expr with
  | interface methods => exact List.forall_mem_map.2 (everyMethod_iff.1 every)
  | _ => exact List.forall_mem_nil _

/-- The node has the name of a primitive that is not registered. -/
structure Node.Unregistered (p : TypeExpr → Prop) (node : Node) : Prop where
  package : node.name.package = ""
  unknown : Primitive.isRegistered node.name.name = false
  leaf : p (.basic node.name.name)

theorem Node.Unregistered.rename {node later : Node} (h : node.Unregistered p)
    (name : later.name = node.name) : later.Unregistered p := by
  constructor
  · rw [name]
    exact h.package
  · rw [name]
    exact h.unknown
  · rw [name]
    exact h.leaf

/-- The definitions cover what the property admits: a named type has a definition, of which the
property holds as well, and a type that is only described is not admitted. -/
structure Definitions.Cover (definitions : Definitions) (p : TypeExpr → Prop) : Prop where
  other : ∀ description, ¬ p (.other description)
  named : ∀ package name, p (.named package name) →
    ∃ definition, definitions.find? package name = some definition ∧ definition.Every p

namespace Atlas

/-- Only primitives that are not registered are unsupported. -/
structure Supported (p : TypeExpr → Prop) (atlas : Atlas) : Prop extends Consistent atlas where
  unregistered : ∀ id node, atlas.node? id = some node → node.kind = .unsupported →
    node.Unregistered p

theorem supported_empty : Supported p {} where
  toConsistent := consistent_empty
  unregistered _ _ hn := by cases hn

namespace Supported

variable {atlas after : Atlas} {id : NodeId}

section

variable (h : atlas.Supported p)

include h

/-- Nodes may be added that have a kind. -/
theorem of_nodes (consistent : after.Consistent) (nodes : ∀ id node, after.node? id = some node →
      atlas.node? id = some node ∨ node.kind ≠ .unsupported) : after.Supported p := by
  refine ⟨consistent, fun id node hn kind => ?_⟩
  rcases nodes id node hn with old | supported
  · exact h.unregistered id node old kind
  · exact absurd kind supported

/-- A node may be rewritten under its name, into an unsupported one if the name is that of a
primitive. -/
theorem updateNode {f : Node → Node} (consistent : (atlas.updateNode id f).Consistent)
    (name : ∀ node, (f node).name = node.name)
    (kind : ∀ node, atlas.node? id = some node → (f node).kind = .unsupported →
      node.Unregistered p) : (atlas.updateNode id f).Supported p := by
  refine ⟨consistent, fun other later hl unsupported => ?_⟩
  rw [node?_updateNode] at hl
  split at hl
  · obtain ⟨node, hn, rfl⟩ := Option.map_eq_some_iff.1 hl
    exact (kind node hn unsupported).rename (name node)
  · exact h.unregistered other later hl unsupported

/-- Comments and methods of a node may be written. -/
theorem annotate (id : NodeId) {f : Node → Node} (name : ∀ node, (f node).name = node.name)
    (kind : ∀ node, (f node).kind = node.kind ∨
      node.kind.isFunc = true ∧ (f node).kind.isFunc = true) :
    (atlas.updateNode id f).Supported p := by
  refine h.updateNode (h.toConsistent.updateNode id fun node _ slot described => ?_) name
    fun node hn unsupported => ?_
  · rcases kind node with same | ⟨function, -⟩
    · exact described.rewrite (name node) (fun kind => same.trans kind)
        fun underlying kind => ⟨underlying, same.trans kind⟩
    · -- a function is neither a primitive nor a declaration
      refine described.rewrite (name node) (fun kind => ?_) fun underlying kind => ?_
      · rw [kind] at function
        cases function
      · rw [kind] at function
        cases function
  · rcases kind node with same | ⟨-, function⟩
    · exact h.unregistered id node hn (same.symm.trans unsupported)
    · rw [unsupported] at function
      cases function

theorem typeNode (name : Name) : (atlas.typeNode name).2.Supported p := by
  refine h.of_nodes (h.toConsistent.typeNode name) fun id node hn => ?_
  rcases node?_typeNode hn with old | ⟨rfl, -⟩ | ⟨canonical, -, rfl⟩
  · exact .inl old
  · refine .inr fun kind => ?_
    cases kind
  · refine .inr fun kind => ?_
    cases kind

/-- A node may be given any kind but one. -/
theorem resolve (id : NodeId) {kind : Kind} (known : kind ≠ .unsupported) :
    (atlas.resolve id kind).Supported p := by
  have consistent := h.toConsistent.resolve id kind
  unfold Atlas.resolve at consistent ⊢
  split
  · next marker =>
    rw [if_pos marker] at consistent
    exact h.updateNode consistent (fun _ => rfl) fun _ _ kind => absurd kind known
  · exact h

/-- A name that spells no registered primitive leads to a node that may be unsupported. -/
theorem resolve_bare {name : String} (found : atlas.findType? (.bare name) = some id)
    (unknown : Primitive.isRegistered name = false) (leaf : p (.basic name)) :
    (atlas.resolve id .unsupported).Supported p := by
  have plain : (Name.bare name).slot.primitive? = none := by
    rw [Primitive.isRegistered, Option.isSome_eq_false_iff, Option.isNone_iff_eq_none] at unknown
    exact unknown
  have consistent := h.toConsistent.resolve id .unsupported
  unfold Atlas.resolve at consistent ⊢
  split
  · next marker =>
    rw [if_pos marker] at consistent
    refine h.updateNode consistent (fun _ => rfl) fun node hn _ => ?_
    obtain ⟨target, ht, described⟩ := h.described (Name.bare name).slot id found
    cases hn.symm.trans ht
    obtain ⟨package, spelling⟩ := described.names plain
    have spelling : node.name.name = name := spelling
    exact ⟨package, spelling ▸ unknown, spelling ▸ leaf⟩
  · exact h

theorem declarationNode (sort : DeclarationSort) (name : Name) :
    (atlas.declarationNode sort name).2.Supported p := by
  refine h.of_nodes (h.toConsistent.declarationNode sort name) fun id node hn => ?_
  rw [declarationNode_eq] at hn
  split at hn
  · exact .inl hn
  · rw [node?_addNode] at hn
    split at hn
    · cases hn
      refine .inr fun kind => ?_
      cases kind
    · exact .inl hn

theorem declare (id underlying : NodeId) : (atlas.declare id underlying).Supported p := by
  have consistent := h.toConsistent.declare id underlying
  unfold Atlas.declare at consistent ⊢
  split
  · next undeclared =>
    rw [if_pos undeclared] at consistent
    refine h.updateNode consistent (fun _ => rfl) fun _ _ kind => ?_
    cases kind
  · exact h

/-- The name of an unsupported node leads to it. -/
theorem findType?_of_unsupported {node : Node} (hn : atlas.node? id = some node)
    (kind : node.kind = .unsupported) : atlas.findType? (.bare node.name.name) = some id := by
  have unregistered := h.unregistered id node hn kind
  obtain ⟨slot, leads⟩ := h.covered id ((atlas.lt_nodeCount_iff id).2 ⟨node, hn⟩)
  obtain ⟨found, hf, described⟩ := h.described slot id leads
  cases hn.symm.trans hf
  obtain ⟨package, name, shelf⟩ := slot
  -- a primitive or a declaration would have a kind
  cases primitive : Slot.primitive? ⟨package, name, shelf⟩ with
  | some spelling =>
    have other := ((Slot.describes_primitive primitive).1 described).2
    rw [kind] at other
    cases other
  | none =>
    cases shelf with
    | declaration sort =>
      obtain ⟨-, underlying, other⟩ := (Slot.describes_declaration rfl).1 described
      rw [kind] at other
      cases other
    | type =>
      obtain ⟨inPackage, named⟩ := described.names primitive
      have inPackage : node.name.package = package := inPackage
      have named : node.name.name = name := named
      rw [unregistered.package] at inPackage
      subst inPackage named
      exact leads

/-- A type name of a package leads to a node that has a kind. -/
theorem kind_ne_unsupported {name : Name} (full : name.package ≠ "")
    (found : atlas.findType? name = some id) {node : Node} (hn : atlas.node? id = some node) :
    node.kind ≠ .unsupported := by
  intro kind
  obtain ⟨target, ht, described⟩ := h.described name.slot id found
  cases hn.symm.trans ht
  have plain : name.slot.primitive? = none := by
    refine Option.eq_none_iff_forall_ne_some.2 fun spelling spells => ?_
    exact full (primitive?_eq_some spells).1
  have inPackage : node.name.package = name.package := (described.names plain).1
  exact full (inPackage.symm.trans (h.unregistered id node hn kind).package)

end

end Supported

end Atlas

namespace Walk

variable {walk : Walk}

/-! ## Steps of a walk -/

theorem supported_setMethods (h : walk.atlas.Supported p) (id : NodeId) (methods : Table NodeId) :
    (walk.setMethods id methods).atlas.Supported p := by
  unfold setMethods
  split
  · exact h
  · exact h.annotate id (fun _ => rfl) fun _ => .inl rfl

theorem supported_setMethodComments (h : walk.atlas.Supported p) (id : NodeId)
    (comments : List String) : (walk.setMethodComments id comments).atlas.Supported p := by
  refine h.annotate id (fun node => ?_) fun node => ?_
  · split <;> rfl
  · split
    · next signature function =>
      rw [function]
      exact .inr ⟨rfl, rfl⟩
    · exact .inl rfl

theorem supported_basic (h : walk.atlas.Supported p) {name : String} (leaf : p (.basic name)) :
    (walk.basic name).2.atlas.Supported p := by
  have claimed := h.typeNode (.bare name)
  unfold basic
  dsimp only
  split
  · exact claimed
  · next unknown =>
    exact claimed.resolve_bare (walk.atlas.findType?_typeNode _) (eq_false_of_ne_true unknown) leaf

theorem supported_node {describe : Walk → (Kind × Table NodeId) × Walk}
    (describes : ∀ walk : Walk, walk.atlas.Supported p →
      (describe walk).1.1 ≠ .unsupported ∧ (describe walk).2.atlas.Supported p)
    (h : walk.atlas.Supported p) (name : Name) :
    (walk.node name describe).2.atlas.Supported p := by
  have claimed : (walk.claim name).2.atlas.Supported p := h.typeNode name
  unfold node
  generalize walk.claim name = answer at claimed
  obtain ⟨⟨id, fresh⟩, after⟩ := answer
  cases fresh with
  | false => exact claimed
  | true =>
    obtain ⟨known, described⟩ := describes (after.start name) claimed
    exact supported_setMethods (described.resolve id known) id _

/-! ## Parts of a walk -/

section Parts

variable (lookup : Lookup) {expand : String → String → Walk → NodeId × Walk}
  (other : ∀ description, ¬ p (.other description))
  (expands : ∀ package name, p (.named package name) → ∀ walk : Walk, walk.atlas.Supported p →
    (expand package name walk).2.atlas.Supported p)

include other in
/-- A type that is neither named nor basic has a kind. -/
theorem describe_ne_unsupported {expr : TypeExpr} (composite : expr.isComposite = true)
    (every : expr.Every p) (owner : Name) (walk : Walk) :
    (describe lookup expand owner expr walk).1.1 ≠ .unsupported := by
  intro kind
  cases expr with
  | basic name | named package name => cases composite
  | other description => exact other description every
  | _ => cases kind

include other expands

/-- A walk goes from a supported atlas to a supported one, over the leaves that are admitted. -/
theorem guides_supported : Guides lookup expand (fun expr => expr.Every p)
    (fun _ method => method.Every p)
    (fun before after => before.atlas.Supported p → after.atlas.Supported p) where
  refl _ := id
  trans first second h := second (first h)
  basic leaf _ h := supported_basic h leaf
  named leaf walk := expands _ _ leaf walk
  node composite every describes walk h := supported_node
    (fun walk h => ⟨describe_ne_unsupported lookup other composite every _ walk, describes walk h⟩)
    h _
  method every describes walk h := by
    rw [method_eq_node]
    refine supported_setMethodComments (supported_node (fun walk h => ⟨?_, describes walk h⟩) h _)
      _ _
    intro kind
    cases kind
  askedPart _ every := every.parts
  askedMethod _ every := every.required _
  askedSignature {_ method} every := by
    cases method
    exact SignatureExpr.Every.parts every

theorem supported_type (useName : Option Name) {expr : TypeExpr} (every : expr.Every p)
    (h : walk.atlas.Supported p) :
    (type lookup expand useName expr walk).2.atlas.Supported p := by
  by_cases composite : expr.isComposite = true
  · rw [type_eq_node lookup expand useName composite]
    exact supported_node (fun walk h =>
      ⟨describe_ne_unsupported lookup other composite every _ walk,
        (guides_supported lookup other expands).describe expr _ every.parts (every.required _)
          walk h⟩) h _
  · cases expr with
    | basic name => exact supported_basic h every
    | named package name => exact expands package name every walk h
    | _ => exact absurd rfl composite

theorem supported_define {definition : Definition} (every : definition.Every p)
    (h : walk.atlas.Supported p) (id : NodeId) (name : Name) :
    (define lookup expand walk id name definition).atlas.Supported p := by
  have kind : (defineKind lookup expand walk id name definition).atlas.Supported p := by
    unfold defineKind
    split
    · have walked := supported_type lookup other expands none every.underlying
        (show (walk.start name).atlas.Supported p from h)
      refine walked.resolve id fun kind => ?_
      cases kind
    · exact supported_type lookup other expands _ every.underlying h
  rw [define_eq, addMethods]
  split
  · exact supported_setMethods ((guides_supported lookup other expands).methodsOf _
      definition.methods every.methods ∅ _ kind) id _
  · exact kind

end Parts

section Definitions

variable {lookup : Lookup} (cover : lookup.definitions.Cover p)

include cover

/-- A named type that is admitted has a definition, so it is never given up. -/
theorem supported_named (depth : Nat) : ∀ package name, p (.named package name) →
    ∀ walk : Walk, walk.atlas.Supported p →
      (named lookup depth package name walk).2.atlas.Supported p := by
  induction depth with
  | zero => exact fun package name _ walk h => h.typeNode _
  | succ depth ih =>
    intro package name leaf walk h
    have claimed : (walk.claim { package, name }).2.atlas.Supported p := h.typeNode _
    unfold named
    generalize walk.claim { package, name } = answer at claimed
    obtain ⟨⟨id, fresh⟩, after⟩ := answer
    cases fresh with
    | false => exact claimed
    | true =>
      obtain ⟨definition, found, every⟩ := cover.named package name leaf
      dsimp only
      rw [if_pos rfl, found]
      exact supported_define lookup cover.other ih every claimed id _

/-- A walk over types that the definitions cover leaves only primitives unsupported. -/
theorem supported_addType (useName : Option Name) {expr : TypeExpr} (every : expr.Every p)
    (h : walk.atlas.Supported p) : (walk.addType lookup useName expr).2.atlas.Supported p :=
  supported_type lookup cover.other (supported_named cover _) useName every h

theorem supported_declare (sort : DeclarationSort) (name : Name) {expr : TypeExpr}
    (every : expr.Every p) (h : walk.atlas.Supported p) :
    (walk.declare lookup sort name expr).2.atlas.Supported p := by
  have started : ({ walk with atlas := (walk.atlas.declarationNode sort name).2 }
      : Walk).atlas.Supported p := h.declarationNode sort name
  exact (supported_addType cover none every started).declare _ _

end Definitions

theorem supported_attachDoc (lookup : Lookup) (h : walk.atlas.Supported p) (id : NodeId)
    (pos : Option Position) : (walk.attachDoc lookup id pos).atlas.Supported p := by
  unfold attachDoc
  split
  · exact h
  · exact h.annotate id (fun _ => rfl) fun _ => .inl rfl

end Walk

end GoAtlas
