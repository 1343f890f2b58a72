import GoAtlas.Proofs.Atlas.Slots
import Mathlib.Logic.ExistsUnique

/-!
# The registry of names

`Consistent` says how slots, nodes and records stand to each other. Each change
the atlas knows is one of four: a record is touched without its tables, a new
node is bound to a free slot, one more spelling of a primitive is bound to the
node of the primitive, or a node is rewritten under its name. Each of the four
keeps `Consistent`, so every operation does, and so does every run of operations
from the empty atlas (`registry_runAll`).

Nothing is said here about the ids inside a kind: an operation may resolve a
marker to any kind.
-/

namespace GoAtlas

namespace Atlas

variable {atlas : Atlas}

/-! ## The invariant and the four changes -/

/-- How the records of an atlas stand to each other. -/
structure Recorded (atlas : Atlas) : Prop where
  /-- A record holds the path it is found under. -/
  keyed : ∀ path package, atlas.packages.get? path = some package → package.path = path
  /-- An imported path has a record. -/
  imported : ∀ path package, atlas.packages.get? path = some package →
    ∀ other ∈ NameSet.toList package.imports, ∃ record, atlas.packages.get? other = some record

/-- How slots, nodes and records stand to each other. -/
structure Consistent (atlas : Atlas) : Prop extends Recorded atlas where
  /-- A slot leads to a node that keeps what the slot promises. -/
  described : ∀ slot id, atlas.target? slot = some id →
    ∃ node, atlas.node? id = some node ∧ slot.Describes node
  /-- Where a spelling of a primitive is known, the spelling of its node is. -/
  synonyms : ∀ slot id, atlas.target? slot = some id → atlas.target? slot.canonical = some id
  /-- Only spellings of one primitive share a node. -/
  apart : ∀ slot other id, atlas.target? slot = some id → atlas.target? other = some id →
    slot.canonical = other.canonical
  /-- Every node is reached by a slot. -/
  covered : ∀ id, id < atlas.nodeCount → ∃ slot, atlas.target? slot = some id

theorem consistent_empty : Consistent {} where
  described _ _ h := by cases h
  synonyms _ _ h := by cases h
  apart _ _ _ h := by cases h
  covered id h := absurd h (Nat.not_lt_zero id)
  keyed _ _ h := by cases h
  imported _ _ h := by cases h

namespace Recorded

variable {atlas : Atlas}

theorem path_package (h : atlas.Recorded) (path : String) : (atlas.package path).path = path := by
  unfold package
  cases found : atlas.packages.get? path with
  | none => rfl
  | some record => exact h.keyed path record found

/-- The imports of a record have records, also of one that is not there yet. -/
theorem imported_package (h : atlas.Recorded) (path : String) :
    ∀ other ∈ NameSet.toList (atlas.package path).imports,
      ∃ record, atlas.packages.get? other = some record := by
  unfold package
  cases found : atlas.packages.get? path with
  | none => intro other mem; cases mem
  | some record => exact h.imported path record found

/-- A record may be rewritten where it keeps its path and what it imports has
records. -/
theorem updatePackage (h : atlas.Recorded) (path : String) {f : Package → Package}
    (paths : ∀ package, (f package).path = package.path)
    (imports : ∀ other ∈ NameSet.toList (f (atlas.package path)).imports,
      ∃ record, atlas.packages.get? other = some record) :
    (atlas.updatePackage path f).Recorded where
  keyed k package found := by
    rw [get?_packages_updatePackage] at found
    split at found
    · next eq =>
      cases found
      rw [paths, h.path_package, eq]
    · exact h.keyed k package found
  imported k package found other mem := by
    rw [get?_packages_updatePackage] at found ⊢
    have known : ∃ record, atlas.packages.get? other = some record := by
      split at found
      · cases found
        exact imports other mem
      · exact h.imported k package found other mem
    split
    · exact ⟨_, rfl⟩
    · exact known

theorem bind (h : atlas.Recorded) (slot : Slot) (id : NodeId) : (atlas.bind slot id).Recorded := by
  refine h.updatePackage slot.package (fun package => Package.path_enter ..) fun other mem => ?_
  rw [Package.imports_enter] at mem
  exact h.imported_package slot.package other mem

end Recorded

namespace Consistent

variable {atlas : Atlas}

section

variable (h : atlas.Consistent)
variable {slot : Slot}

include h

theorem lt_nodeCount {id : NodeId} (found : atlas.target? slot = some id) :
    id < atlas.nodeCount := by
  obtain ⟨node, hn, -⟩ := h.described slot id found
  exact (atlas.lt_nodeCount_iff id).2 ⟨node, hn⟩

/-- A record may be touched where its path and its tables stay and what it
imports has records. -/
theorem updatePackage (path : String) {f : Package → Package}
    (shelves : ∀ package, (f package).shelf = package.shelf)
    (paths : ∀ package, (f package).path = package.path)
    (imports : ∀ other ∈ NameSet.toList (f (atlas.package path)).imports,
      ∃ record, atlas.packages.get? other = some record) :
    (atlas.updatePackage path f).Consistent where
  toRecorded := h.toRecorded.updatePackage path paths imports
  described slot id found := by
    rw [target?_updatePackage atlas path shelves] at found
    exact h.described slot id found
  synonyms slot id found := by
    rw [target?_updatePackage atlas path shelves] at found ⊢
    exact h.synonyms slot id found
  apart slot other id found found' := by
    rw [target?_updatePackage atlas path shelves] at found found'
    exact h.apart slot other id found found'
  covered id lt := by
    obtain ⟨slot, found⟩ := h.covered id lt
    exact ⟨slot, by rw [target?_updatePackage atlas path shelves, found]⟩

/-- A free slot that is its own canonical slot may be bound to a new node that
keeps what the slot promises. -/
theorem addNode {node : Node} (canonical : slot.canonical = slot) (free : atlas.target? slot = none)
    (describes : slot.Describes node) :
    (atlas.addNode slot node).Consistent where
  toRecorded := @Recorded.bind { atlas with nodes := atlas.nodes.push node }
    ⟨h.keyed, h.imported⟩ slot atlas.nodeCount
  described other id found := by
    rw [target?_addNode] at found
    split at found
    · next eq =>
      cases found
      exact ⟨node, by rw [node?_addNode, if_pos rfl], eq ▸ describes⟩
    · obtain ⟨old, hold, described⟩ := h.described other id found
      exact ⟨old, node?_addNode_of_some hold, described⟩
  synonyms other id found := by
    rw [target?_addNode] at found ⊢
    by_cases eq : other = slot
    · rw [if_pos eq] at found
      rw [eq, canonical, if_pos rfl, found]
    · rw [if_neg eq] at found
      have known := h.synonyms other id found
      have ne : other.canonical ≠ slot := by
        intro eq'
        rw [eq', free] at known
        cases known
      rw [if_neg ne, known]
  apart one other id found found' := by
    rw [target?_addNode] at found found'
    by_cases eq : one = slot <;> by_cases eq' : other = slot
    · rw [eq, eq']
    -- the new node lies beyond all nodes that old slots lead to
    · rw [if_pos eq] at found
      rw [if_neg eq'] at found'
      cases found
      exact absurd (h.lt_nodeCount found') (Nat.lt_irrefl _)
    · rw [if_neg eq] at found
      rw [if_pos eq'] at found'
      cases found'
      exact absurd (h.lt_nodeCount found) (Nat.lt_irrefl _)
    · rw [if_neg eq] at found
      rw [if_neg eq'] at found'
      exact h.apart one other id found found'
  covered id lt := by
    rw [nodeCount_addNode] at lt
    by_cases eq : id = atlas.nodeCount
    · exact ⟨slot, by rw [target?_addNode, if_pos rfl, eq]⟩
    · obtain ⟨other, found⟩ := h.covered id (by omega)
      have ne : other ≠ slot := by
        rintro rfl
        rw [free] at found
        cases found
      exact ⟨other, by rw [target?_addNode, if_neg ne, found]⟩

/-- A free slot may be bound to the node of its canonical slot. -/
theorem bindSynonym {id : NodeId} (free : atlas.target? slot = none)
    (found : atlas.target? slot.canonical = some id) :
    (atlas.bind slot id).Consistent where
  toRecorded := h.toRecorded.bind slot id
  described other target known := by
    rw [target?_bind] at known
    split at known
    · next eq =>
      cases known
      obtain ⟨node, hn, described⟩ := h.described _ _ found
      exact ⟨node, hn, eq ▸ (slot.describes_canonical node).1 described⟩
    · exact h.described other target known
  synonyms other target known := by
    rw [target?_bind] at known ⊢
    split at known
    · next eq =>
      cases known
      rw [eq]
      split
      · rfl
      · exact found
    · split
      · next eq =>
        have bound := h.synonyms other target known
        rw [eq, free] at bound
        cases bound
      · exact h.synonyms other target known
  apart one other target known known' := by
    -- the slot stands for its canonical slot, which leads to the same node
    have stands : ∀ candidate, (atlas.bind slot id).target? candidate = some target →
        ∃ old, atlas.target? old = some target ∧ old.canonical = candidate.canonical := by
      intro candidate bound
      rw [target?_bind] at bound
      split at bound
      · next eq =>
        cases bound
        exact ⟨slot.canonical, found, by rw [eq, Slot.canonical_canonical]⟩
      · exact ⟨candidate, bound, rfl⟩
    obtain ⟨first, hfirst, eqFirst⟩ := stands one known
    obtain ⟨second, hsecond, eqSecond⟩ := stands other known'
    rw [← eqFirst, ← eqSecond]
    exact h.apart first second target hfirst hsecond
  covered target lt := by
    obtain ⟨other, known⟩ := h.covered target lt
    have ne : other ≠ slot := by
      rintro rfl
      rw [free] at known
      cases known
    exact ⟨other, by rw [target?_bind, if_neg ne, known]⟩

/-- A node may be rewritten where it keeps all that a slot promises of it. -/
theorem updateNode (id : NodeId) {f : Node → Node} (keeps : ∀ node, atlas.node? id = some node →
      ∀ slot : Slot, slot.Describes node → slot.Describes (f node)) :
    (atlas.updateNode id f).Consistent where
  toRecorded := ⟨h.keyed, h.imported⟩
  described slot target found := by
    obtain ⟨node, hn, described⟩ := h.described slot target found
    rw [node?_updateNode]
    split
    · next eq =>
      rw [← eq, hn]
      exact ⟨f node, rfl, keeps node (eq ▸ hn) slot described⟩
    · exact ⟨node, hn, described⟩
  synonyms := h.synonyms
  apart := h.apart
  covered target lt := h.covered target (by rwa [nodeCount_updateNode] at lt)

/-! ## The operations -/

theorem addPackage (path : String) : (atlas.addPackage path).Consistent :=
  h.updatePackage path (fun _ => rfl) (fun _ => rfl) (h.toRecorded.imported_package path)

theorem primitiveNode {canonical : String}
    (registered : Primitive.canonical? canonical = some canonical) :
    (atlas.primitiveNode canonical).2.Consistent ∧
      (atlas.primitiveNode canonical).2.target? (Name.bare canonical).slot =
        some (atlas.primitiveNode canonical).1 ∧
      ∀ slot, slot ≠ (Name.bare canonical).slot →
        (atlas.primitiveNode canonical).2.target? slot = atlas.target? slot := by
  have spelled : (Name.bare canonical).slot.primitive? = some canonical := registered
  unfold Atlas.primitiveNode
  cases found : atlas.findType? (.bare canonical) with
  | some id => exact ⟨h, found, fun _ _ => rfl⟩
  | none =>
    rw [addType_eq_addNode]
    refine ⟨h.addNode ?_ found ?_, ?_, fun slot ne => ?_⟩
    · exact Slot.canonical_of_primitive spelled
    · exact (Slot.describes_primitive spelled).2 ⟨rfl, rfl⟩
    · rw [target?_addNode, if_pos rfl]
    · rw [target?_addNode, if_neg ne]

theorem typeNode (name : Name) : (atlas.typeNode name).2.Consistent := by
  unfold Atlas.typeNode
  cases found : atlas.findType? name with
  | some id => exact h
  | none =>
    cases primitive : primitive? name with
    | some canonical =>
      obtain ⟨consistent, bound, others⟩ :=
        h.primitiveNode (Primitive.canonical?_canonical (primitive?_eq_some primitive).2)
      by_cases same : canonical = name.name
      · simpa only [if_pos same] using consistent
      · simp only [if_neg same]
        rw [bindType_eq_bind, slot_bare_of_primitive primitive]
        refine consistent.bindSynonym ?_ ?_
        · rw [others name.slot fun eq => same (congrArg Slot.name eq).symm]
          exact found
        · have spells : name.slot.primitive? = some canonical := primitive
          rw [Slot.canonical_of_primitive spells]
          exact bound
    | none =>
      rw [addType_eq_addNode]
      have plain : name.slot.primitive? = none := primitive
      refine h.addNode (Slot.canonical_eq_self plain) found ?_
      exact (Slot.describes_plain rfl plain).2 ⟨rfl, rfl⟩

theorem declarationNode (sort : DeclarationSort) (name : Name) :
    (atlas.declarationNode sort name).2.Consistent := by
  unfold Atlas.declarationNode
  split
  · exact h
  · next free =>
    have free : atlas.target? ⟨name.package, name.name, .declaration sort⟩ = none := free
    exact h.addNode rfl free ⟨⟨rfl, rfl⟩, none, rfl⟩

/-- A marker carries no promise about its kind. -/
theorem resolve (id : NodeId) (kind : Kind) : (atlas.resolve id kind).Consistent := by
  unfold Atlas.resolve
  split
  · next marker =>
    refine h.updateNode id fun node hn slot described => ?_
    have unknown : node.kind = .unknown := by
      rw [isMarker, hn] at marker
      exact node.kind_of_not_resolved (by simpa using marker)
    refine described.rewrite rfl (fun hk => ?_) fun underlying hk => ?_
    · rw [unknown] at hk
      cases hk
    · rw [unknown] at hk
      cases hk
  · exact h

/-- A declaration stays a declaration. -/
theorem declare (id underlying : NodeId) : (atlas.declare id underlying).Consistent := by
  unfold Atlas.declare
  split
  · next undeclared =>
    refine h.updateNode id fun node hn slot described => ?_
    have unfinished : node.kind = .declaration none := by
      rw [isUndeclared, hn] at undeclared
      simpa using undeclared
    refine described.rewrite rfl (fun hk => ?_) fun _ _ => ⟨some underlying, rfl⟩
    rw [unfinished] at hk
    cases hk
  · exact h

theorem addImport (path imported : String) : (atlas.addImport path imported).Consistent := by
  have added := h.addPackage imported
  refine added.updatePackage path (fun _ => rfl) (fun _ => rfl) fun other mem => ?_
  rcases (NameSet.mem_toList_add _ _ _).1 mem with rfl | mem
  · exact ⟨_, by rw [Atlas.addPackage, get?_packages_updatePackage, if_pos rfl]⟩
  · exact added.toRecorded.imported_package path other mem

theorem addImports (path : String) (imports : List String) :
    (atlas.addImports path imports).Consistent := by
  induction imports generalizing atlas with
  | nil => exact h
  | cons imported rest ih => exact ih (h.addImport path imported)

end

end Consistent

/-! ## Runs of operations -/

/-- A call that changes an atlas. -/
inductive Operation where
  | package (path : String)
  | type (name : Name)
  | declaration (sort : DeclarationSort) (name : Name)
  | resolve (id : NodeId) (kind : Kind)
  | declare (id underlying : NodeId)
  | addImports (path : String) (imports : List String)

/-- The atlas after a call. -/
def Operation.run (atlas : Atlas) : Operation → Atlas
  | .package path => atlas.addPackage path
  | .type name => (atlas.typeNode name).2
  | .declaration sort name => (atlas.declarationNode sort name).2
  | .resolve id kind => atlas.resolve id kind
  | .declare id underlying => atlas.declare id underlying
  | .addImports path imports => atlas.addImports path imports

/-- The atlas after a list of calls. -/
def runAll (atlas : Atlas) (operations : List Operation) : Atlas :=
  operations.foldl Operation.run atlas

/-- Every call keeps the invariant. -/
theorem Consistent.run (h : atlas.Consistent) (operation : Operation) :
    (operation.run atlas).Consistent := by
  cases operation with
  | package path => exact h.addPackage path
  | type name => exact h.typeNode name
  | declaration sort name => exact h.declarationNode sort name
  | resolve id kind => exact h.resolve id kind
  | declare id underlying => exact h.declare id underlying
  | addImports path imports => exact h.addImports path imports

theorem Consistent.runAll (h : atlas.Consistent) (operations : List Operation) :
    (atlas.runAll operations).Consistent := by
  induction operations generalizing atlas with
  | nil => exact h
  | cons operation rest ih => exact ih (h.run operation)

theorem Recorded.map_path_filterMap (h : atlas.Recorded) {names : List String}
    (known : ∀ name ∈ names, ∃ record, atlas.packages.get? name = some record) :
    (names.filterMap atlas.packages.get?).map (·.path) = names := by
  induction names with
  | nil => rfl
  | cons name rest ih =>
    obtain ⟨record, hr⟩ := known name List.mem_cons_self
    rw [List.filterMap_cons_some hr, List.map_cons, h.keyed name record hr,
      ih fun other mem => known other (List.mem_cons_of_mem _ mem)]

/-- The records of the imported packages, one for each import and in the order
of the imports. -/
theorem Recorded.map_path_importsOf (h : atlas.Recorded) {path : String} {package : Package}
    (found : atlas.packages.get? path = some package) :
    (atlas.importsOf path).map (·.path) = NameSet.toList package.imports := by
  rw [importsOf, found]
  exact h.map_path_filterMap (h.imported path package found)

/-- What the name tables, the nodes and the records of an atlas promise. -/
structure Registry (atlas : Atlas) : Prop where
  /-- Every id in a table is the place of a node. -/
  bounded : ∀ slot id, atlas.target? slot = some id → id < atlas.nodeCount
  /-- A type name that spells no primitive leads to the node of that name. -/
  types : ∀ package name id, atlas.target? ⟨package, name, .type⟩ = some id →
    primitive? { package, name } = none →
    ∃ node, atlas.node? id = some node ∧ node.name.package = package ∧ node.name.name = name
  /-- A spelling of a primitive leads to the node of its canonical spelling. -/
  primitives : ∀ name canonical id, Primitive.canonical? name = some canonical →
    atlas.target? ⟨"", name, .type⟩ = some id →
    ∃ node, atlas.node? id = some node ∧ node.name = .bare canonical ∧ node.kind = .primitive
  /-- A declared name leads to the declaration of that name. -/
  declarations : ∀ package name sort id,
    atlas.target? ⟨package, name, .declaration sort⟩ = some id →
    ∃ node underlying, atlas.node? id = some node ∧ node.name.package = package ∧
      node.name.name = name ∧ node.kind = .declaration underlying
  /-- Every node is the target of exactly one slot, up to the spellings of a
  primitive. -/
  target : ∀ id, id < atlas.nodeCount →
    ∃! slot : Slot, slot.canonical = slot ∧ atlas.target? slot = some id
  /-- Slots that share a node spell one primitive or are the same. -/
  apart : ∀ slot other id, atlas.target? slot = some id → atlas.target? other = some id →
    slot.canonical = other.canonical
  /-- A record holds the path it is found under. -/
  keyed : ∀ path package, atlas.packages.get? path = some package → package.path = path
  /-- Every imported path has a record, and the imported packages are given in
  the order of their paths. -/
  imports : ∀ path package, atlas.packages.get? path = some package →
    (∀ other ∈ NameSet.toList package.imports, ∃ record, atlas.packages.get? other = some record) ∧
      (atlas.importsOf path).map (·.path) = NameSet.toList package.imports ∧
      ((atlas.importsOf path).map (·.path)).Pairwise (· < ·)

/-- Whatever is called on an empty atlas, in whatever order, names lead to their
nodes, nodes have one name, and records are found under their paths. -/
theorem registry_runAll (operations : List Operation) : Registry (runAll {} operations) := by
  have h : Consistent (runAll {} operations) := consistent_empty.runAll operations
  refine ⟨fun _ _ => h.lt_nodeCount, ?_, ?_, ?_, ?_, h.apart, h.keyed, ?_⟩
  · intro package name id found plain
    obtain ⟨node, hn, described⟩ := h.described _ _ found
    exact ⟨node, hn, described.names plain⟩
  · intro name canonical id registered found
    obtain ⟨node, hn, described⟩ := h.described _ _ found
    have spelled : (Slot.mk "" name .type).primitive? = some canonical := registered
    exact ⟨node, hn, (Slot.describes_primitive spelled).1 described⟩
  · intro package name sort id found
    obtain ⟨node, hn, described⟩ := h.described _ _ found
    obtain ⟨⟨hp, hl⟩, underlying, hk⟩ := (Slot.describes_declaration rfl).1 described
    exact ⟨node, underlying, hn, hp, hl, hk⟩
  · intro id lt
    obtain ⟨slot, found⟩ := h.covered id lt
    refine ⟨slot.canonical, ⟨slot.canonical_canonical, h.synonyms slot id found⟩, ?_⟩
    rintro other ⟨canonical, found'⟩
    rw [← canonical]
    exact h.apart other slot id found' found
  · intro path package found
    have paths := h.toRecorded.map_path_importsOf found
    refine ⟨h.imported path package found, paths, ?_⟩
    rw [paths]
    exact Table.keys_increasing package.imports

end Atlas

end GoAtlas
