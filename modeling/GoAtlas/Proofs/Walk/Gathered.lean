import GoAtlas.Proofs.Walk.Faithful
import GoAtlas.Proofs.Walk.Orderly

/-!
# Names that are needed

The names a walk should find nodes for are those of the subjects it reaches, with the
spelling of the node for a primitive (`Needed`). Each of them asks for others: for the names
of its parts, and for the identities of its methods (`Subject.needs`).

`Gathered` is what holds on the way. What a subject needs is there, unless its name is held,
and then the part of the walk that holds the name is about to see to it. Nothing is asked
of the methods of one type: two of them may have the same name, and share an entry in the
table of the node.
-/

namespace GoAtlas

/-! ## Names that are needed -/

/-- A type name leads to a node. -/
def Atlas.Registered (atlas : Atlas) (name : Name) : Prop :=
  ∃ id, atlas.findType? name = some id

/-- The names of the types a subject is made of. -/
def Subject.partNames (definitions : Definitions) (subject : Subject) : List Name :=
  (subject.parts definitions).map TypeExpr.canonicalName

/-- The identities of the methods of a subject. -/
def Subject.identities (definitions : Definitions) (subject : Subject) : List Name :=
  (subject.methods definitions).map Prod.fst

/-- All the names a subject needs. -/
def Subject.needs (definitions : Definitions) (subject : Subject) : List Name :=
  subject.partNames definitions ++ subject.identities definitions

/-- The names of the subjects that are reached, with the spelling of the node for a
primitive that has another. -/
inductive Needed (definitions : Definitions) (walked : List TypeExpr) : Name → Prop
  | subject {subject : Subject} : Reached definitions walked subject →
      Needed definitions walked subject.name
  | primitive {spelling canonical : String} :
      Reached definitions walked (.type (.basic spelling)) →
      Primitive.canonical? spelling = some canonical →
      Needed definitions walked (.bare canonical)

/-! ## Positions play no part -/

theorem names_unplacedList (types : List TypeExpr) :
    (paredList false types).map TypeExpr.canonicalName = types.map TypeExpr.canonicalName := by
  induction types with
  | nil => rfl
  | cons first rest ih =>
    rw [paredList, List.map_cons, List.map_cons, ih, first.canonicalName_pared false]

theorem names_unplacedFields (fields : List FieldExpr) :
    ((paredFields false fields).map FieldExpr.type).map TypeExpr.canonicalName =
      (fields.map FieldExpr.type).map TypeExpr.canonicalName := by
  induction fields with
  | nil => rfl
  | cons first rest ih =>
    obtain ⟨name, embedded, tag, type, pos⟩ := first
    simp only [paredFields, List.map_cons, ih, FieldExpr.pared, type.canonicalName_pared false]

theorem SignatureExpr.names_parts_unplaced (signature : SignatureExpr) :
    signature.unplaced.parts.map TypeExpr.canonicalName =
      signature.parts.map TypeExpr.canonicalName := by
  obtain ⟨receiver, params, results, variadic⟩ := signature
  cases receiver with
  | none =>
    simp [SignatureExpr.pared, SignatureExpr.parts, paredReceiver, names_unplacedList]
  | some receiver =>
    simp [SignatureExpr.pared, SignatureExpr.parts, paredReceiver, names_unplacedList,
      receiver.canonicalName_pared false]

theorem TypeExpr.names_parts_unplaced (type : TypeExpr) :
    type.unplaced.parts.map TypeExpr.canonicalName = type.parts.map TypeExpr.canonicalName := by
  cases type with
  | basic name | named package name | interface methods | other description => rfl
  | pointer elem | slice elem | array length elem | chan direction elem =>
    simp [TypeExpr.pared, TypeExpr.parts, elem.canonicalName_pared false]
  | map key elem =>
    simp [TypeExpr.pared, TypeExpr.parts, key.canonicalName_pared false,
      elem.canonicalName_pared false]
  | struct fields => exact names_unplacedFields fields
  | func signature => exact signature.names_parts_unplaced

theorem Definitions.names_parts_unplaced (definitions : Definitions) (type : TypeExpr) :
    (definitions.parts type.unplaced).map TypeExpr.canonicalName =
      (definitions.parts type).map TypeExpr.canonicalName := by
  simp only [Definitions.parts, Definitions.of?_unplaced]
  cases definitions.of? type with
  | some definition => rfl
  | none => exact type.names_parts_unplaced

theorem Definitions.identities_unplaced (definitions : Definitions) (type : TypeExpr) :
    (definitions.methods type.unplaced).map Prod.fst =
      (definitions.methods type).map Prod.fst := by
  have listed := congrArg (List.map Prod.fst) (definitions.listing_methods_unplaced type)
  rw [List.map_map, List.map_map] at listed
  exact listed

variable {subject other : Subject}

section

variable (definitions : Definitions) (agrees : subject.Agrees other)

include definitions agrees

theorem Subject.partNames_congr : subject.partNames definitions = other.partNames definitions :=
  agrees.congr (fun a => a.parts.map TypeExpr.canonicalName) definitions.names_parts_unplaced
    (fun _ _ => rfl) SignatureExpr.names_parts_unplaced

theorem Subject.identities_congr :
    subject.identities definitions = other.identities definitions :=
  agrees.congr (fun _ => []) definitions.identities_unplaced (fun _ _ => rfl) fun _ => rfl

/-- Subjects that agree need the same names. -/
theorem Subject.needs_congr : subject.needs definitions = other.needs definitions := by
  rw [Subject.needs, Subject.needs, partNames_congr definitions agrees,
    identities_congr definitions agrees]

end

namespace Atlas

variable {before after atlas : Atlas} {name other : Name} {id : NodeId}

theorem Registered.later (there : before.Registered name) (extends' : before.Extends after) :
    after.Registered name := by
  obtain ⟨id, found⟩ := there
  exact ⟨id, extends'.findType? found⟩

theorem findType?_of_primitiveNode {canonical : String}
    (there : (atlas.primitiveNode canonical).2.findType? other = some id) :
    atlas.findType? other = some id ∨ other.slot = (Name.bare canonical).slot := by
  unfold primitiveNode at there
  split at there
  · exact .inl there
  · rw [addType_eq_addNode, findType?_eq_target?, target?_addNode] at there
    split at there
    · next same => exact .inr same
    · exact .inl there

/-- Asking for a name makes that name lead to a node, and the spelling of the node for a
primitive. -/
theorem findType?_of_typeNode (there : (atlas.typeNode name).2.findType? other = some id) :
    atlas.findType? other = some id ∨ other.slot = name.slot ∨
      ∃ canonical, primitive? name = some canonical ∧
        other.slot = (Name.bare canonical).slot := by
  unfold typeNode at there
  cases found : atlas.findType? name with
  | some place =>
    rw [found] at there
    exact .inl there
  | none =>
    rw [found] at there
    cases primitive : primitive? name with
    | none =>
      rw [primitive] at there
      dsimp only at there
      rw [addType_eq_addNode, findType?_eq_target?, target?_addNode] at there
      split at there
      · next same => exact .inr (.inl same)
      · exact .inl there
    | some canonical =>
      rw [primitive] at there
      dsimp only at there
      split at there
      · rcases findType?_of_primitiveNode there with old | same
        · exact .inl old
        · exact .inr (.inr ⟨canonical, rfl, same⟩)
      · rw [bindType_eq_bind, findType?_eq_target?, target?_bind] at there
        split at there
        · next same =>
          exact .inr (.inl (same.trans (slot_bare_of_primitive primitive)))
        · rcases findType?_of_primitiveNode there with old | same
          · exact .inl old
          · exact .inr (.inr ⟨canonical, rfl, same⟩)

end Atlas

namespace Walk

/-! ## The invariant -/

variable {definitions : Definitions} {walked : List TypeExpr}

/-- What the subject that the name stands for needs has nodes. -/
def Supplied (definitions : Definitions) (walked : List TypeExpr) (needs : Subject → List Name)
    (atlas : Atlas) (name : Name) : Prop :=
  ∃ subject, Reached definitions walked subject ∧ subject.name = name ∧
    ∀ need ∈ needs subject, atlas.Registered need

/-- Names lead to nodes where they are needed, and what they stand for is complete, but for
the names that are held. -/
structure Gathered (definitions : Definitions) (walked : List TypeExpr) (held : List Name)
    (walk : Walk) : Prop where
  consistent : walk.atlas.Consistent
  busy : ∀ name ∈ walk.busy, walk.atlas.Registered name
  needed : ∀ name, name.path = none → walk.atlas.Registered name →
    Needed definitions walked name
  complete : ∀ name, name.path = none → Atlas.primitive? name = none → name ∉ held →
    walk.atlas.Registered name →
    Supplied definitions walked (Subject.needs definitions) walk.atlas name
  /-- A node has methods only when all of them were walked. -/
  backed : ∀ name id node, name.path = none → Atlas.primitive? name = none →
    walk.atlas.findType? name = some id → walk.atlas.node? id = some node → node.methods ≠ ∅ →
    Supplied definitions walked (Subject.identities definitions) walk.atlas name

theorem gathered_empty : Gathered definitions walked [] { atlas := {} } where
  consistent := Atlas.consistent_empty
  busy _ mem := by cases mem
  needed name _ there := by
    obtain ⟨id, found⟩ := there
    cases found
  complete name _ _ _ there := by
    obtain ⟨id, found⟩ := there
    cases found
  backed _ _ _ _ _ found := by cases found

variable {held : List Name} {walk after claimed : Walk} {name : Name} {id : NodeId}
  {subject : Subject}

variable {needs : Subject → List Name}

theorem Supplied.later {before after : Atlas} (h : Supplied definitions walked needs before name)
    (extends' : before.Extends after) : Supplied definitions walked needs after name := by
  obtain ⟨subject, reached, named, there⟩ := h
  exact ⟨subject, reached, named, fun need mem => (there need mem).later extends'⟩

/-- Names stand for one subject but for positions, which play no part. -/
theorem Supplied.of_reached {atlas : Atlas} (wellNamed : WellNamed definitions walked)
    (congr : ∀ {subject other : Subject}, subject.Agrees other → needs subject = needs other)
    (reached : Reached definitions walked subject)
    (h : Supplied definitions walked needs atlas subject.name) :
    ∀ need ∈ needs subject, atlas.Registered need := by
  obtain ⟨other, also, named, there⟩ := h
  rw [← congr (wellNamed.agrees also reached named)]
  exact there

namespace Gathered

/-- The name of a reached subject may be claimed, and is held from then on. -/
theorem claim (h : Gathered definitions walked held walk)
    (reached : Reached definitions walked subject)
    (primitive : ∀ canonical, Atlas.primitive? subject.name = some canonical →
      Needed definitions walked (.bare canonical)) :
    Gathered definitions walked (subject.name :: held) (walk.claim subject.name).2 := by
  have extends' : walk.atlas.Extends (walk.claim subject.name).2.atlas :=
    (onward_claim walk subject.name).atlas
  have consistent : (walk.claim subject.name).2.atlas.Consistent :=
    h.consistent.typeNode subject.name
  refine ⟨consistent, ?_, ?_, ?_, ?_⟩
  · intro other mem
    exact (h.busy other mem).later extends'
  · rintro other path ⟨id, found⟩
    rcases Atlas.findType?_of_typeNode found with old | same | ⟨canonical, spells, same⟩
    · exact h.needed other path ⟨id, old⟩
    · rw [Name.eq_of_slot path reached.path same]
      exact .subject reached
    · rw [Name.eq_of_slot path rfl same]
      exact primitive canonical spells
  · rintro other path plain free ⟨id, found⟩
    rcases Atlas.findType?_of_typeNode found with old | same | ⟨canonical, spells, same⟩
    · have notHeld : other ∉ held := fun mem => free (List.mem_cons_of_mem _ mem)
      exact (h.complete other path plain notHeld ⟨id, old⟩).later extends'
    · rw [Name.eq_of_slot path reached.path same] at free
      exact absurd List.mem_cons_self free
    · -- the spelling of a node is that of a primitive
      have canonicalSpells : Atlas.primitive? (.bare canonical) = some canonical :=
        Primitive.canonical?_canonical (Atlas.primitive?_eq_some spells).2
      rw [Atlas.primitive?_of_slot same, canonicalSpells] at plain
      cases plain
  · intro other id node path plain found hn some
    rcases Atlas.node?_typeNode hn with old | ⟨rfl, -⟩ | ⟨canonical, -, rfl⟩
    · have lt := (walk.atlas.lt_nodeCount_iff id).2 ⟨node, old⟩
      have leading : walk.atlas.Leading (walk.claim subject.name).2.atlas := extends'.bound
      have led := leading.findType?_of_lt h.consistent consistent plain found lt
      exact (h.backed other id node path plain led old some).later extends'
    · exact absurd rfl some
    · exact absurd rfl some

/-- A name that leads to a node may become busy. -/
theorem start (h : Gathered definitions walked held walk) (there : walk.atlas.Registered name) :
    Gathered definitions walked held (walk.start name) where
  consistent := h.consistent
  busy other mem := by
    rcases List.mem_cons.1 mem with rfl | mem
    · exact there
    · exact h.busy other mem
  needed := h.needed
  complete := h.complete
  backed := h.backed

/-- A name that is complete need not be held any more. -/
theorem close (h : Gathered definitions walked (name :: held) walk)
    (complete : Supplied definitions walked (Subject.needs definitions) walk.atlas name) :
    Gathered definitions walked held walk where
  consistent := h.consistent
  busy := h.busy
  needed := h.needed
  complete other path plain free there := by
    by_cases same : other = name
    · exact same ▸ complete
    · refine h.complete other path plain ?_ there
      intro mem
      exact (List.mem_cons.1 mem).elim same free
  backed := h.backed

section

variable (h : Gathered definitions walked held walk)

include h

/-- Nodes may be rewritten, and names be busy no more, as long as methods are only given to
nodes whose methods were walked. -/
theorem rewrite (consistent : after.atlas.Consistent)
    (names : after.atlas.findType? = walk.atlas.findType?)
    (busy : ∀ name ∈ after.busy, name ∈ walk.busy)
    (methods : ∀ id node, after.atlas.node? id = some node → node.methods ≠ ∅ →
      (∃ old, walk.atlas.node? id = some old ∧ old.methods ≠ ∅) ∨
        ∀ name, name.path = none → Atlas.primitive? name = none →
          walk.atlas.findType? name = some id →
            Supplied definitions walked (Subject.identities definitions) walk.atlas name) :
    Gathered definitions walked held after := by
  have registered : ∀ name, after.atlas.Registered name ↔ walk.atlas.Registered name := by
    intro name
    rw [Atlas.Registered, Atlas.Registered, names]
  refine ⟨consistent, ?_, ?_, ?_, ?_⟩
  · intro name mem
    exact (registered name).2 (h.busy name (busy name mem))
  · intro name path there
    exact h.needed name path ((registered name).1 there)
  · intro name path plain free there
    simp only [Supplied, registered]
    exact h.complete name path plain free ((registered name).1 there)
  · intro name id node path plain found hn some
    simp only [Supplied, registered]
    rw [names] at found
    rcases methods id node hn some with ⟨old, there, hadSome⟩ | backed
    · exact h.backed name id old path plain found there hadSome
    · exact backed name path plain found

theorem resolve (id : NodeId) (kind : Kind) {busy : List Name}
    (fewer : ∀ name ∈ busy, name ∈ walk.busy) :
    Gathered definitions walked held ⟨walk.atlas.resolve id kind, busy⟩ := by
  have consistent := h.consistent.resolve id kind
  unfold Atlas.resolve at consistent ⊢
  split
  · next marker =>
    rw [if_pos marker] at consistent
    refine h.rewrite consistent rfl fewer ?_
    intro place node hn some
    rw [Atlas.node?_updateNode] at hn
    split at hn
    · next same =>
      obtain ⟨old, there, rfl⟩ := Option.map_eq_some_iff.1 hn
      exact .inl ⟨old, same ▸ there, some⟩
    · exact .inl ⟨node, hn, some⟩
  · exact h.rewrite h.consistent rfl fewer fun place node hn some => .inl ⟨node, hn, some⟩

theorem setMethods (path : name.path = none) (plain : Atlas.primitive? name = none)
    (found : walk.atlas.findType? name = some id) {methods : Table NodeId}
    (backed : methods.isEmpty = false →
      Supplied definitions walked (Subject.identities definitions) walk.atlas name) :
    Gathered definitions walked held (walk.setMethods id methods) := by
  have consistent := consistent_setMethods h.consistent id methods
  unfold Walk.setMethods at consistent ⊢
  split
  · exact h
  · next some =>
    rw [if_neg some] at consistent
    refine h.rewrite consistent rfl (fun _ mem => mem) ?_
    intro place node hn given
    dsimp only at hn
    rw [Atlas.node?_updateNode] at hn
    split at hn
    · next same =>
      refine .inr fun other otherPath otherPlain leads => ?_
      rw [same] at leads
      rw [Name.eq_of_slot otherPath path (h.consistent.slot_eq plain found leads)]
      exact backed (eq_false_of_ne_true some)
    · exact .inl ⟨node, hn, given⟩

theorem setMethodComments (id : NodeId) (comments : List String) :
    Gathered definitions walked held (walk.setMethodComments id comments) := by
  refine h.rewrite (consistent_setMethodComments h.consistent id comments) rfl
    (fun _ mem => mem) ?_
  intro place node hn some
  rw [Walk.setMethodComments, Atlas.node?_updateNode] at hn
  split at hn
  · next same =>
    obtain ⟨old, there, rfl⟩ := Option.map_eq_some_iff.1 hn
    refine .inl ⟨old, same ▸ there, ?_⟩
    split at some <;> exact some
  · exact .inl ⟨node, hn, some⟩

/-- Where a name that is no primitive need not be described it led to its node before. -/
theorem claim_old (plain : Atlas.primitive? name = none)
    (old : walk.claim name = ((id, false), claimed)) : claimed = walk := by
  cases found : walk.atlas.findType? name with
  | some place =>
    have same : walk.atlas.typeNode name = (place, walk.atlas) := by
      rw [Atlas.typeNode, found]
    rw [Walk.claim, same] at old
    exact (congrArg Prod.snd old).symm
  | none =>
    -- a new marker is to be described unless the name is busy, and busy names have nodes
    have idle : name ∉ walk.busy := by
      intro mem
      obtain ⟨place, there⟩ := h.busy name mem
      rw [found] at there
      cases there
    have view := (Atlas.view_addNode h.consistent name name (.marker name)).trans (if_pos rfl)
    rw [Walk.claim, Atlas.typeNode_of_free found plain] at old
    simp only [isMarker_of_view view] at old
    simp [Node.bare, Node.marker, Kind.bare, Kind.isUnknown, idle] at old

end

end Gathered

/-! ## Nodes -/

/-- The names are gathered, and there is room for the definitions that are left. -/
structure Roomy (definitions : Definitions) (walked : List TypeExpr) (room : Nat)
    (held : List Name) (walk : Walk) : Prop where
  gathered : Gathered definitions walked held walk
  fits : walk.unentered definitions < room

variable {room : Nat} {describe : Walk → (Kind × Table NodeId) × Walk}

theorem Roomy.onward {before : Walk} (h : Roomy definitions walked room held before)
    (onward : before.Onward after) (gathered : Gathered definitions walked held after) :
    Roomy definitions walked room held after :=
  ⟨gathered, Nat.lt_of_le_of_lt onward.unentered_le h.fits⟩

/-- A name that no primitive is spelled like may be claimed and become busy. -/
theorem Gathered.begin (h : Gathered definitions walked held walk)
    (reached : Reached definitions walked subject) (named : subject.name = name)
    (plain : Atlas.primitive? name = none) (fresh : walk.claim name = ((id, true), claimed)) :
    Gathered definitions walked (name :: held) (claimed.start name) := by
  subst named
  have found := findType?_claim walk subject.name
  have open_ := h.claim reached fun canonical spells => by
    rw [plain] at spells
    cases spells
  rw [fresh] at found open_
  exact open_.start ⟨id, found⟩

theorem node_of_fresh (fresh : walk.claim name = ((id, true), claimed)) :
    walk.node name describe =
      let result := describe (claimed.start name)
      (id, (result.2.finish id name result.1.1).setMethods id result.1.2) := by
  rw [node, fresh]
  exact if_pos rfl

theorem findType?_node_of_fresh (fresh : walk.claim name = ((id, true), claimed)) :
    (walk.node name describe).2.atlas.findType? =
      (describe (claimed.start name)).2.atlas.findType? := by
  rw [node_of_fresh fresh]
  exact (findType?_setMethods _ _ _).trans (findType?_finish _ _ _ _)

/-- A node that has been described is still held. -/
theorem Gathered.node_open (reached : Reached definitions walked subject)
    (named : subject.name = name) (plain : Atlas.primitive? name = none)
    (fresh : walk.claim name = ((id, true), claimed))
    (onward : (claimed.start name).Onward (describe (claimed.start name)).2)
    (inner : Gathered definitions walked held (describe (claimed.start name)).2)
    (backed : (describe (claimed.start name)).1.2.isEmpty = false →
      ∀ need ∈ subject.identities definitions,
        (describe (claimed.start name)).2.atlas.Registered need) :
    Gathered definitions walked held (walk.node name describe).2 := by
  have found := (onward.node_of_claim fresh).1
  have finished := inner.resolve id (describe (claimed.start name)).1.1
    fun other (mem : other ∈ (describe (claimed.start name)).2.busy.erase name) =>
      List.mem_of_mem_erase mem
  have extends' := Atlas.Extends.resolve (describe (claimed.start name)).2.atlas id
    (describe (claimed.start name)).1.1
  rw [node_of_fresh fresh]
  refine finished.setMethods (named ▸ reached.path) plain (extends'.findType? found) ?_
  intro some
  exact ⟨subject, reached, named, fun need mem => (backed some need mem).later extends'⟩

/-- The node of a subject is found, or described with all that the subject needs. -/
theorem Roomy.node (h : Roomy definitions walked room held walk)
    (reached : Reached definitions walked subject) (named : subject.name = name)
    (plain : Atlas.primitive? name = none) (onward : ∀ walk, Onward walk (describe walk).2)
    (inner : ∀ walk, Roomy definitions walked room (name :: held) walk →
      Gathered definitions walked (name :: held) (describe walk).2 ∧
        (∀ need ∈ subject.partNames definitions, (describe walk).2.atlas.Registered need) ∧
        ∀ need ∈ subject.identities definitions, (describe walk).2.atlas.Registered need) :
    Gathered definitions walked held (walk.node name describe).2 := by
  rcases claim : walk.claim name with ⟨⟨id, fresh⟩, claimed⟩
  cases fresh with
  | false =>
    have same : (walk.node name describe).2 = claimed := by
      rw [Walk.node, claim]
      rfl
    rw [same, h.gathered.claim_old plain claim]
    exact h.gathered
  | true =>
    obtain ⟨gathered, parts, methods⟩ := inner (claimed.start name)
      ⟨h.gathered.begin reached named plain claim,
        Nat.lt_of_le_of_lt (unentered_start claim) h.fits⟩
    have names := @findType?_node_of_fresh walk claimed name id describe claim
    refine (Gathered.node_open reached named plain claim (onward _) gathered
      fun _ => methods).close ?_
    simp only [Supplied, Atlas.Registered, names]
    exact ⟨subject, reached, named, List.forall_mem_append.2 ⟨parts, methods⟩⟩

/-- A primitive has its node at once, under its own spelling and that of the node. -/
theorem Gathered.basic (h : Gathered definitions walked held walk) {spelling : String}
    (reached : Reached definitions walked (.type (.basic spelling))) :
    Gathered definitions walked held (walk.basic spelling).2 := by
  have open_ := h.claim reached fun canonical spells => .primitive reached spells
  have closed := open_.close ⟨_, reached, rfl, List.forall_mem_nil _⟩
  rw [basic_eq]
  dsimp only
  split
  · exact closed
  · exact closed.resolve _ _ fun _ mem => mem

end Walk

end GoAtlas
