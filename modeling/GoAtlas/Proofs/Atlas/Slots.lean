import GoAtlas.Atlas
import GoAtlas.Proofs.Table

/-!
# Slots

A slot is a name in one of the four tables of a package. An atlas is read
through its slots, `Atlas.target?`, and through its places, `Atlas.node?`. The
laws below say what each change of an atlas does to these two readings, so that
later proofs look neither at the records nor at the array of nodes.

A slot that spells a registered primitive stands for the slot of the canonical
spelling: `Slot.canonical` identifies the two.
-/

namespace GoAtlas

/-- The tables of a package record. -/
inductive Shelf where
  | type
  | declaration (sort : DeclarationSort)
deriving DecidableEq

/-- A name in one table of a package. -/
structure Slot where
  package : String
  name : String
  shelf : Shelf
deriving DecidableEq

/-- The slot a type name is looked up in. The location of the name plays no part. -/
def Name.slot (name : Name) : Slot :=
  ⟨name.package, name.name, .type⟩

/-- Names without location are told apart by their slots. -/
theorem Name.eq_of_slot {name other : Name} (path : name.path = none)
    (otherPath : other.path = none) (same : name.slot = other.slot) : name = other := by
  cases name
  cases other
  cases same
  cases path
  cases otherPath
  rfl

namespace Slot

variable {node : Node}

/-- The registered primitive a slot spells. -/
def primitive? (slot : Slot) : Option String :=
  match slot.shelf with
  | .type => Atlas.primitive? { package := slot.package, name := slot.name }
  | .declaration _ => none

/-- The slot with the spellings of a primitive identified. -/
def canonical (slot : Slot) : Slot :=
  match slot.primitive? with
  | some spelling => { slot with name := spelling }
  | none => slot

/-- The node has the name of the slot. -/
def Names (slot : Slot) (node : Node) : Prop :=
  node.name.package = slot.package ∧ node.name.name = slot.name

/-- What a slot promises of the node it leads to. -/
def Describes (slot : Slot) (node : Node) : Prop :=
  match slot.shelf with
  | .type =>
    match slot.primitive? with
    | some spelling => node.name = .bare spelling ∧ node.kind = .primitive
    | none => slot.Names node
  | .declaration _ => slot.Names node ∧ ∃ underlying, node.kind = .declaration underlying

variable {slot : Slot}

theorem canonical_eq_self (h : slot.primitive? = none) : slot.canonical = slot := by
  rw [canonical, h]

theorem describes_primitive {spelling : String} (h : slot.primitive? = some spelling) :
    slot.Describes node ↔ node.name = .bare spelling ∧ node.kind = .primitive := by
  unfold Describes
  cases hs : slot.shelf with
  | type => simp only [h]
  | declaration sort => simp only [primitive?, hs, reduceCtorEq] at h

theorem describes_declaration {sort : DeclarationSort} (h : slot.shelf = .declaration sort) :
    slot.Describes node ↔ slot.Names node ∧ ∃ underlying, node.kind = .declaration underlying := by
  simp only [Describes, h]

theorem describes_plain (hs : slot.shelf = .type) (plain : slot.primitive? = none) :
    slot.Describes node ↔ slot.Names node := by
  simp only [Describes, hs, plain]

/-- A slot that spells no primitive leads to a node of its own name. -/
theorem Describes.names (h : slot.Describes node) (plain : slot.primitive? = none) :
    slot.Names node := by
  cases hs : slot.shelf with
  | type => exact (describes_plain hs plain).1 h
  | declaration sort => exact ((describes_declaration hs).1 h).1

/-- A node may be rewritten under its name, as long as a primitive stays a
primitive and a declaration a declaration. -/
theorem Describes.rewrite {slot : Slot} {node after : Node} (h : slot.Describes node)
    (name : after.name = node.name) (primitive : node.kind = .primitive → after.kind = .primitive)
    (declaration : ∀ underlying, node.kind = .declaration underlying →
      ∃ underlying, after.kind = .declaration underlying) : slot.Describes after := by
  have renamed : slot.Names node → slot.Names after := by
    rintro ⟨package, local_⟩
    exact ⟨name ▸ package, name ▸ local_⟩
  cases hs : slot.shelf with
  | declaration sort =>
    obtain ⟨names, underlying, kind⟩ := (describes_declaration hs).1 h
    exact (describes_declaration hs).2 ⟨renamed names, declaration underlying kind⟩
  | type =>
    cases hp : slot.primitive? with
    | some spelling =>
      obtain ⟨spelled, kind⟩ := (describes_primitive hp).1 h
      exact (describes_primitive hp).2 ⟨name.trans spelled, primitive kind⟩
    | none => exact (describes_plain hs hp).2 (renamed (h.names hp))

end Slot

/-- A node that is not resolved is a marker. -/
theorem Node.kind_of_not_resolved (node : Node) (h : node.isResolved = false) :
    node.kind = .unknown := by
  cases hk : node.kind <;> simp [isResolved, Kind.isUnknown, hk] at h
  rfl

namespace Primitive

/-- The spelling of a node leads to itself. -/
theorem canonical?_of_mem : ∀ entry ∈ registered, canonical? entry.2 = some entry.2 := by
  decide +kernel

theorem mem_of_lookup {entries : List (String × String)} {key value : String}
    (h : entries.lookup key = some value) : (key, value) ∈ entries := by
  obtain ⟨before, after, rfl, -⟩ := List.lookup_eq_some_iff.1 h
  exact List.mem_append_right before List.mem_cons_self

theorem canonical?_canonical {spelling canonical : String}
    (h : canonical? spelling = some canonical) : canonical? canonical = some canonical :=
  canonical?_of_mem _ (mem_of_lookup h)

end Primitive

namespace Atlas

theorem primitive?_eq_some {name : Name} {spelling : String} (h : primitive? name = some spelling) :
    name.package = "" ∧ Primitive.canonical? name.name = some spelling := by
  unfold primitive? at h
  split at h
  · next bare => exact ⟨String.isEmpty_iff.1 bare, h⟩
  · cases h

theorem slot_bare_of_primitive {name : Name} {spelling : String}
    (h : primitive? name = some spelling) : (Name.bare name.name).slot = name.slot := by
  rw [Name.slot, Name.slot, (primitive?_eq_some h).1]
  rfl

end Atlas

namespace Slot

variable {spelling : String}

/-- A slot that spells a primitive is a type name of the package with the empty path. -/
theorem primitive?_eq_some {slot : Slot} (h : slot.primitive? = some spelling) :
    slot.package = "" ∧ slot.shelf = .type ∧ Primitive.canonical? slot.name = some spelling := by
  unfold primitive? at h
  cases hs : slot.shelf with
  | type =>
    rw [hs] at h
    obtain ⟨package, name⟩ := Atlas.primitive?_eq_some h
    exact ⟨package, rfl, name⟩
  | declaration sort => simp only [hs, reduceCtorEq] at h

theorem canonical_of_primitive {slot : Slot} (h : slot.primitive? = some spelling) :
    slot.canonical = (Name.bare spelling).slot := by
  obtain ⟨package, shelf, -⟩ := primitive?_eq_some h
  simp only [canonical, h]
  rw [package, shelf]
  rfl

theorem primitive?_canonical (slot : Slot) : slot.canonical.primitive? = slot.primitive? := by
  cases h : slot.primitive? with
  | none => rw [canonical_eq_self h, h]
  | some spelling =>
    rw [canonical_of_primitive h]
    exact Primitive.canonical?_canonical (primitive?_eq_some h).2.2

@[simp] theorem canonical_canonical (slot : Slot) : slot.canonical.canonical = slot.canonical := by
  cases h : slot.primitive? with
  | none => rw [canonical_eq_self h, canonical_eq_self h]
  | some spelling =>
    have h' : slot.canonical.primitive? = some spelling := by rw [primitive?_canonical, h]
    rw [canonical_of_primitive h', canonical_of_primitive h]

/-- The spellings of one primitive promise the same. -/
theorem describes_canonical (slot : Slot) (node : Node) :
    slot.canonical.Describes node ↔ slot.Describes node := by
  cases h : slot.primitive? with
  | none => rw [canonical_eq_self h]
  | some spelling =>
    have h' : slot.canonical.primitive? = some spelling := by rw [primitive?_canonical, h]
    rw [describes_primitive h, describes_primitive h']

end Slot

namespace Package

/-- One table of a record. -/
def shelf (package : Package) : Shelf → Table NodeId
  | .type => package.types
  | .declaration sort => package.declarations sort

/-- The record with a name of one table bound to a node. -/
def enter (package : Package) (shelf : Shelf) (name : String) (id : NodeId) : Package :=
  match shelf with
  | .type => { package with types := package.types.insert name id }
  | .declaration sort => package.declareAs name id sort

theorem shelf_enter (package : Package) (shelf other : Shelf) (name : String) (id : NodeId) :
    (package.enter shelf name id).shelf other =
      if other = shelf then (package.shelf shelf).insert name id else package.shelf other := by
  cases shelf with
  | type => cases other <;> rfl
  | declaration sort =>
    cases other with
    | type => cases sort <;> rfl
    | declaration sort' => cases sort <;> cases sort' <;> rfl

@[simp] theorem path_enter (package : Package) (shelf : Shelf) (name : String) (id : NodeId) :
    (package.enter shelf name id).path = package.path := by
  cases shelf with
  | type => rfl
  | declaration sort => cases sort <;> rfl

@[simp] theorem imports_enter (package : Package) (shelf : Shelf) (name : String) (id : NodeId) :
    (package.enter shelf name id).imports = package.imports := by
  cases shelf with
  | type => rfl
  | declaration sort => cases sort <;> rfl

end Package

namespace Atlas

/-! ## Reading an atlas by slots -/

/-- The node a slot leads to. -/
def target? (atlas : Atlas) (slot : Slot) : Option NodeId :=
  (atlas.packages.get? slot.package).bind fun package => (package.shelf slot.shelf).get? slot.name

/-- A slot bound to a node. -/
def bind (atlas : Atlas) (slot : Slot) (id : NodeId) : Atlas :=
  atlas.updatePackage slot.package fun package => package.enter slot.shelf slot.name id

/-- A new node, bound to a slot. -/
def addNode (atlas : Atlas) (slot : Slot) (node : Node) : Atlas :=
  { atlas with nodes := atlas.nodes.push node }.bind slot atlas.nodeCount

section

variable (atlas : Atlas)

theorem findType?_eq_target? (name : Name) :
    atlas.findType? name = atlas.target? name.slot := rfl

theorem bindType_eq_bind (name : Name) (id : NodeId) :
    atlas.bindType name id = atlas.bind name.slot id := rfl

theorem addType_eq_addNode (name : Name) (node : Node) :
    atlas.addType name node = (atlas.nodeCount, atlas.addNode name.slot node) := rfl

@[simp] theorem target?_updateNode (id : NodeId) (f : Node → Node) (slot : Slot) :
    (atlas.updateNode id f).target? slot = atlas.target? slot := rfl

@[simp] theorem node?_bind (slot : Slot) (target id : NodeId) :
    (atlas.bind slot target).node? id = atlas.node? id := rfl

theorem get?_packages_updatePackage (path : String) (f : Package → Package) (k : String) :
    (atlas.updatePackage path f).packages.get? k =
      if k = path then some (f (atlas.package path)) else atlas.packages.get? k :=
  Table.get?_insert _ _ _ _

/-- The record of a package answers for its slots, also where there is none yet. -/
theorem get?_shelf_package (slot : Slot) :
    ((atlas.package slot.package).shelf slot.shelf).get? slot.name = atlas.target? slot := by
  unfold package target?
  cases atlas.packages.get? slot.package with
  | some package => rfl
  | none =>
    cases slot.shelf with
    | type => rfl
    | declaration sort => cases sort <;> rfl

/-- A record touched without its tables leaves every slot as it was. -/
theorem target?_updatePackage (path : String) {f : Package → Package}
    (keeps : ∀ package, (f package).shelf = package.shelf) (slot : Slot) :
    (atlas.updatePackage path f).target? slot = atlas.target? slot := by
  rw [← get?_shelf_package atlas slot, target?, get?_packages_updatePackage]
  split
  · next h => rw [Option.bind_some, keeps, h]
  · rw [get?_shelf_package]
    rfl

/-- Binding a slot changes what that slot leads to and nothing else. -/
theorem target?_bind (slot other : Slot) (id : NodeId) :
    (atlas.bind slot id).target? other = if other = slot then some id else atlas.target? other := by
  rw [← get?_shelf_package atlas other, target?, bind, get?_packages_updatePackage]
  by_cases hp : other.package = slot.package
  · rw [if_pos hp, Option.bind_some, Package.shelf_enter, ← hp]
    by_cases hs : other.shelf = slot.shelf
    · rw [if_pos hs, Table.get?_insert, ← hs]
      by_cases hn : other.name = slot.name
      · have eq : other = slot := by
          cases other; cases slot
          simp_all
        rw [if_pos hn, if_pos eq]
      · rw [if_neg hn, if_neg fun eq => hn (congrArg Slot.name eq)]
    · rw [if_neg hs, if_neg fun eq => hs (congrArg Slot.shelf eq)]
  · rw [if_neg hp, if_neg fun eq => hp (congrArg Slot.package eq), get?_shelf_package]
    rfl

theorem node?_updateNode (id : NodeId) (f : Node → Node) (other : NodeId) :
    (atlas.updateNode id f).node? other =
      if other = id then (atlas.node? id).map f else atlas.node? other := by
  show (atlas.nodes.modify id f)[other]? = _
  rw [Array.getElem?_modify]
  by_cases h : other = id
  · rw [if_pos h.symm, if_pos h, h]
    rfl
  · rw [if_neg (Ne.symm h), if_neg h]
    rfl

@[simp] theorem nodeCount_updateNode (id : NodeId) (f : Node → Node) :
    (atlas.updateNode id f).nodeCount = atlas.nodeCount :=
  Array.size_modify

theorem node?_addNode (slot : Slot) (node : Node) (id : NodeId) :
    (atlas.addNode slot node).node? id =
      if id = atlas.nodeCount then some node else atlas.node? id :=
  Array.getElem?_push

theorem target?_addNode (slot other : Slot) (node : Node) :
    (atlas.addNode slot node).target? other =
      if other = slot then some atlas.nodeCount else atlas.target? other :=
  target?_bind _ _ _ _

@[simp] theorem nodeCount_addNode (slot : Slot) (node : Node) :
    (atlas.addNode slot node).nodeCount = atlas.nodeCount + 1 :=
  Array.size_push ..

theorem lt_nodeCount_iff (id : NodeId) :
    id < atlas.nodeCount ↔ ∃ node, atlas.node? id = some node := by
  rw [node?, nodeCount, ← Option.isSome_iff_exists]
  simp

end

/-- A new node stands beside the old ones. -/
theorem node?_addNode_of_some {atlas : Atlas} {slot : Slot} {node old : Node} {id : NodeId}
    (h : atlas.node? id = some old) : (atlas.addNode slot node).node? id = some old := by
  have lt : id < atlas.nodeCount := (atlas.lt_nodeCount_iff id).2 ⟨old, h⟩
  rw [node?_addNode, if_neg (Nat.ne_of_lt lt), h]

end Atlas

end GoAtlas
