import GoAtlas.Proofs.Walk.Gathered

/-!
# The names of a graph

A walk cuts its way short at every name that it knows already, be it described or busy. All
the same no name is missed, and none is added that nothing asks for: the names that lead to
nodes are exactly those that are needed (`registered_iff_needed`).

Named types are walked last, by induction on the depth that is left: a type with a
definition is entered only once, and there is room for all of them.
-/

namespace GoAtlas

namespace Walk

variable {definitions : Definitions} {walked : List TypeExpr} {held : List Name}
  {walk after claimed : Walk} {name : Name} {id : NodeId} {subject : Subject} {room : Nat}

/-! ## Parts -/

/-- The walk of a list of methods ends with an empty table only if there are none. -/
theorem isEmpty_methodsOf (lookup : Lookup) (expand : String → String → Walk → NodeId × Walk)
    (ownerOf : MethodExpr → Name) (methods : List MethodExpr) (known : Table NodeId)
    (walk : Walk) :
    (methodsOf lookup expand ownerOf methods known walk).1.isEmpty =
      (methods.isEmpty && known.isEmpty) := by
  induction methods generalizing known walk with
  | nil => simp [methodsOf]
  | cons method rest ih =>
    obtain ⟨called, pos, signature⟩ := method
    have some : ∀ id, (known.insert called id).isEmpty = false := by
      intro id
      refine eq_false_of_ne_true fun empty => ?_
      have none := (Table.isEmpty_iff_get? _).1 empty called
      rw [Table.get?_insert_self] at none
      cases none
    rw [methodsOf]
    simp only [ih, some, Bool.and_false, List.isEmpty_cons, Bool.false_and]

/-- A description comes with methods where the type requires some. -/
theorem isEmpty_describe (lookup : Lookup) (expand : String → String → Walk → NodeId × Walk)
    (owner : Name) (expr : TypeExpr) (walk : Walk) :
    (Walk.describe lookup expand owner expr walk).1.2.isEmpty = (expr.required owner).isEmpty := by
  cases expr with
  | interface methods =>
    show (methodsOf lookup expand _ methods ∅ walk).1.isEmpty = _
    rw [isEmpty_methodsOf, TypeExpr.required, List.isEmpty_map]
    exact Bool.and_true _
  | _ => rfl

/-- The walk goes onward, and gathers names where there is room. -/
structure Gathering (definitions : Definitions) (walked : List TypeExpr) (room : Nat)
    (before after : Walk) : Prop where
  onward : before.Onward after
  gathered : ∀ held, Roomy definitions walked room held before →
    Gathered definitions walked held after

/-- Names are well chosen, and named types are expanded as a walk within the room does it. -/
structure Gathers (lookup : Lookup) (walked : List TypeExpr) (room : Nat)
    (expand : String → String → Walk → NodeId × Walk) : Prop where
  wellNamed : WellNamed lookup.definitions walked
  onward : ∀ package name walk, Onward walk (expand package name walk).2
  finds : ∀ package name walk,
    (expand package name walk).2.atlas.findType? { package, name } =
      some (expand package name walk).1
  named : ∀ package name held walk,
    Reached lookup.definitions walked (.type (.named package name)) →
    Roomy lookup.definitions walked room held walk →
    Gathered lookup.definitions walked held (expand package name walk).2

section Parts

variable {lookup : Lookup} {expand : String → String → Walk → NodeId × Walk}
  (gathers : Gathers lookup walked room expand)

include gathers

/-- The parts of a type have nodes once they were walked. -/
theorem registered_parts (owner : Name) {expr : TypeExpr} (composite : expr.isComposite = true)
    (walk : Walk) : ∀ part ∈ expr.parts,
      (Walk.describe lookup expand owner expr walk).2.atlas.Registered part.canonicalName :=
  known_of_map (TypeExpr.map_parts
    (kind?_describe lookup gathers.onward gathers.finds owner composite walk))

/-- Types are gathered when their parts and their methods are. -/
theorem guides_gathering : Guides lookup expand
    (fun expr => Reached lookup.definitions walked (.type expr))
    (fun identity method => Reached lookup.definitions walked (.method identity method))
    (Gathering lookup.definitions walked room) where
  refl walk := ⟨.refl walk, fun _ h => h.gathered⟩
  trans h h' := ⟨h.onward.trans h'.onward,
    fun held room => h'.gathered held (room.onward h.onward (h.gathered held room))⟩
  basic reached walk := ⟨carries_onward.basic walk _, fun _ h => h.gathered.basic reached⟩
  named reached walk :=
    ⟨gathers.onward _ _ walk, fun held h => gathers.named _ _ held walk reached h⟩
  node {expr} composite reached describes walk := by
    have onward := fun walk => (describes walk).onward
    have noBasic : ∀ spelling, Subject.type expr ≠ .type (.basic spelling) := by
      intro spelling same
      cases same
      cases composite
    refine ⟨carries_onward.node onward walk _, fun held h => ?_⟩
    refine h.node reached rfl (gathers.wellNamed.plain reached noBasic) onward fun walk inside =>
      ⟨(describes walk).gathered _ inside, ?_, ?_⟩
    · rw [Subject.partNames, Definitions.parts_composite _ composite]
      exact List.forall_mem_map.2 (registered_parts gathers _ composite walk)
    · rw [Subject.identities, Definitions.methods_composite _ composite]
      exact List.forall_mem_map.2 (known_describe lookup gathers.onward _ expr walk)
  method {identity method} reached describes walk := by
    have onward := fun walk => (describes walk).onward
    refine ⟨onward_method lookup gathers.onward method identity walk, fun held h => ?_⟩
    have plain : Atlas.primitive? identity = none :=
      gathers.wellNamed.plain reached fun spelling same => by cases same
    rw [method_eq_node]
    refine Gathered.setMethodComments (h.node reached rfl plain onward fun walk inside =>
      ⟨(describes walk).gathered _ inside, ?_, List.forall_mem_nil _⟩) _ _
    have parts := @registered_parts _ _ _ _ gathers identity (.func method.signature) rfl walk
    exact List.forall_mem_map.2 parts
  askedPart composite reached part mem :=
    .part reached (Definitions.parts_composite _ composite ▸ mem)
  askedMethod composite reached entry mem :=
    .method reached (Definitions.methods_composite _ composite ▸ mem)
  askedSignature reached _ mem := .part reached mem

end Parts

/-- A node that is given methods has them. -/
theorem isEmpty_of_setMethods {methods : Table NodeId} {node : Node}
    (there : walk.atlas.node? id = some node)
    (bare : ((walk.setMethods id methods).atlas.node? id).all
      (fun node => node.methods.isEmpty) = true) : methods.isEmpty = true := by
  unfold Walk.setMethods at bare
  split at bare
  · next empty => exact empty
  · dsimp only at bare
    rw [Atlas.node?_updateNode, if_pos rfl, there] at bare
    exact bare

section Define

variable {lookup : Lookup} {expand : String → String → Walk → NodeId × Walk}
  {package name : String} {definition : Definition}

/-- The name of a reached type with a definition was claimed, and there is room for it. -/
structure Entering (lookup : Lookup) (walked : List TypeExpr) (room : Nat) (held : List Name)
    (package name : String) (definition : Definition) (id : NodeId) (walk claimed : Walk) :
    Prop where
  reached : Reached lookup.definitions walked (.type (.named package name))
  defined : lookup.definitions.find? package name = some definition
  plain : Atlas.primitive? { package, name } = none
  claim : walk.claim { package, name } = ((id, true), claimed)
  gathered : Gathered lookup.definitions walked held walk
  fits : walk.unentered lookup.definitions ≤ room

/-- The type was given its kind, but not the methods declared on it. Its parts have nodes,
and where it requires methods its node has some. -/
structure Founded (lookup : Lookup) (walked : List TypeExpr) (room : Nat) (held : List Name)
    (package name : String) (definition : Definition) (id : NodeId) (after : Walk) :
    Prop extends Roomy lookup.definitions walked room ({ package, name } :: held) after where
  leads : after.atlas.findType? { package, name } = some id
  parts : ∀ need ∈ (Subject.type (.named package name)).partNames lookup.definitions,
    after.atlas.Registered need
  bare : (after.atlas.node? id).all (fun node => node.methods.isEmpty) = true →
    definition.underlying.required { package, name } = []

section

variable (gathers : Gathers lookup walked room expand)
  (entering : Entering lookup walked room held package name definition id walk claimed)

include entering

/-- Below a definition there is room for one definition less. -/
theorem Entering.start :
    Roomy lookup.definitions walked room ({ package, name } :: held)
      (claimed.start { package, name }) :=
  ⟨entering.gathered.begin entering.reached rfl entering.plain entering.claim,
    Nat.lt_of_lt_of_le (unentered_start_lt entering.claim (Definitions.mem_names entering.defined))
      entering.fits⟩

include gathers

theorem founded_aliased (aliased : definition.underlying.isAliased = true) :
    Founded lookup walked room held package name definition id
      (defineKind lookup expand claimed id { package, name } definition) := by
  have parts := Definitions.parts_of_find? entering.defined
  rw [if_pos aliased] at parts
  have inner := ((guides_gathering gathers).type
    (.part entering.reached (parts ▸ List.mem_cons_self)) _).gathered _ entering.start
  have there : Atlas.Registered _ definition.underlying.canonicalName :=
    ⟨_, found_type lookup gathers.onward gathers.finds definition.underlying
      (claimed.start { package, name })⟩
  have below := unentered_defineKind_lt lookup gathers.onward entering.claim
    (Definitions.mem_names entering.defined) definition
  have onward := onward_type lookup gathers.onward none definition.underlying
    (claimed.start { package, name })
  rw [defineKind, if_pos aliased] at below ⊢
  refine ⟨⟨inner.resolve id _ fun _ mem => List.mem_of_mem_erase mem,
    Nat.lt_of_lt_of_le below entering.fits⟩, ?_, ?_, ?_⟩
  · exact (Atlas.Extends.resolve _ _ _).findType? (onward.node_of_claim entering.claim).1
  · rw [Subject.partNames, parts]
    intro need mem
    rw [List.mem_singleton.1 mem]
    exact there.later (.resolve _ _ _)
  · intro _
    exact required_of_aliased aliased _

theorem founded_flattened (flattened : definition.underlying.isAliased = false) :
    Founded lookup walked room held package name definition id
      (defineKind lookup expand claimed id { package, name } definition) := by
  have parts := Definitions.parts_of_find? entering.defined
  rw [if_neg (ne_true_of_eq_false flattened)] at parts
  have methods := Definitions.methods_of_required entering.defined
  have onward := onward_describe lookup gathers.onward definition.underlying { package, name }
    (claimed.start { package, name })
  have below := unentered_defineKind_lt lookup gathers.onward entering.claim
    (Definitions.mem_names entering.defined) definition
  have inner := ((guides_gathering gathers).describe definition.underlying { package, name }
    (fun part mem => .part entering.reached (parts ▸ mem))
    (fun entry mem => .method entering.reached (methods (List.ne_nil_of_mem mem) ▸ mem))
    _).gathered _ entering.start
  have empty := isEmpty_describe lookup expand { package, name } definition.underlying
    (claimed.start { package, name })
  have names := @findType?_node_of_fresh walk claimed _ id
    (Walk.describe lookup expand { package, name } definition.underlying) entering.claim
  rw [defineKind_of_claim lookup expand entering.claim flattened] at below ⊢
  refine ⟨⟨?_, Nat.lt_of_lt_of_le below entering.fits⟩, ?_, ?_, ?_⟩
  · refine Gathered.node_open entering.reached rfl entering.plain entering.claim onward inner ?_
    intro listed
    have some : (definition.underlying.required { package, name }).isEmpty = false :=
      empty.symm.trans listed
    rw [Subject.identities, methods (List.isEmpty_eq_false_iff.1 some)]
    exact List.forall_mem_map.2 (known_describe lookup gathers.onward _ definition.underlying _)
  · rw [names]
    exact (onward.node_of_claim entering.claim).1
  · simp only [Atlas.Registered, names]
    rw [Subject.partNames, parts]
    exact List.forall_mem_map.2
      (registered_parts gathers _ (composite_of_not_aliased flattened) _)
  · intro bare
    rw [node_of_fresh entering.claim] at bare
    obtain ⟨-, node, hn⟩ := onward.node_of_claim entering.claim
    obtain ⟨later, hl, -⟩ := (Atlas.Extends.resolve _ id _).kept id node hn
    rw [← List.isEmpty_iff, ← empty]
    exact isEmpty_of_setMethods hl bare

omit entering in
/-- With the methods declared on it, if its node has none yet, the type is complete. -/
theorem gathered_addMethods
    (reached : Reached lookup.definitions walked (.type (.named package name)))
    (defined : lookup.definitions.find? package name = some definition)
    (plain : Atlas.primitive? { package, name } = none)
    (h : Founded lookup walked room held package name definition id after) :
    Gathered lookup.definitions walked held
      (addMethods lookup expand after id { package, name } definition) := by
  rw [addMethods]
  split
  · next bare =>
    have methods := Definitions.methods_of_find? defined
    rw [h.bare bare, List.isEmpty_nil, if_pos rfl] at methods
    have onward := carries_onward.methodsOf lookup gathers.onward (fun _ => { package, name })
      definition.methods ∅ after
    have inner := ((guides_gathering gathers).methodsOf (fun _ => { package, name })
      definition.methods (fun method mem =>
        .method reached (methods ▸ List.mem_map_of_mem mem)) ∅ after).gathered _ h.toRoomy
    have there := known_methodsOf lookup gathers.onward (fun _ => { package, name })
      definition.methods ∅ after
    generalize methodsOf lookup expand (fun _ => { package, name }) definition.methods ∅ after =
      result at onward inner there ⊢
    have identities : ∀ need ∈ (Subject.type (.named package name)).identities lookup.definitions,
        result.2.atlas.Registered need := by
      rw [Subject.identities, methods, List.map_map]
      exact List.forall_mem_map.2 there
    refine (inner.setMethods rfl plain (onward.atlas.findType? h.leads) fun _ =>
      ⟨_, reached, rfl, identities⟩).close ?_
    simp only [Supplied, Atlas.Registered, findType?_setMethods]
    exact ⟨_, reached, rfl, List.forall_mem_append.2
      ⟨fun need mem => (h.parts need mem).later onward.atlas, identities⟩⟩
  · next listed =>
    -- the node has methods, and it has some only when all were walked
    obtain ⟨node, hn, some⟩ : ∃ node, after.atlas.node? id = some node ∧
        ¬ node.methods.isEmpty = true := by
      rw [Option.all_eq_true] at listed
      simpa using listed
    have backed := h.gathered.backed { package, name } id node rfl plain h.leads hn fun none =>
      some ((Table.isEmpty_iff _).2 none)
    exact h.gathered.close ⟨_, reached, rfl, List.forall_mem_append.2
      ⟨h.parts, backed.of_reached gathers.wellNamed (Subject.identities_congr _) reached⟩⟩

/-- A named type that is described by its definition is complete, and so need not be held. -/
theorem gathered_define :
    Gathered lookup.definitions walked held
      (define lookup expand claimed id { package, name } definition) := by
  rw [define_eq]
  refine gathered_addMethods gathers entering.reached entering.defined entering.plain ?_
  cases aliased : definition.underlying.isAliased with
  | true => exact founded_aliased gathers entering aliased
  | false => exact founded_flattened gathers entering aliased

end

end Define

/-! ## Named types and walks -/

variable {lookup : Lookup}

section

variable (wellNamed : WellNamed lookup.definitions walked)

include wellNamed

/-- Named types are gathered within any depth there is room for. -/
theorem gathered_named (depth : Nat) (package name : String) (held : List Name) (walk : Walk)
    (reached : Reached lookup.definitions walked (.type (.named package name)))
    (h : Roomy lookup.definitions walked depth held walk) :
    Gathered lookup.definitions walked held (named lookup depth package name walk).2 := by
  induction depth generalizing package name held walk with
  | zero => exact absurd h.fits (Nat.not_lt_zero _)
  | succ depth ih =>
    have plain : Atlas.primitive? { package, name } = none :=
      wellNamed.plain reached fun spelling same => by cases same
    rw [named]
    rcases claim : walk.claim { package, name } with ⟨⟨id, fresh⟩, claimed⟩
    cases fresh with
    | false =>
      show Gathered lookup.definitions walked held claimed
      rw [h.gathered.claim_old plain claim]
      exact h.gathered
    | true =>
      dsimp only
      rw [if_pos rfl]
      cases defined : lookup.definitions.find? package name with
      | none =>
        -- a type without definition needs nothing
        have open_ := h.gathered.claim reached fun canonical spells => by
          cases plain.symm.trans spells
        have same : (walk.claim (Subject.type (.named package name)).name).2 = claimed :=
          congrArg Prod.snd claim
        rw [same] at open_
        refine (open_.close ⟨_, reached, rfl, ?_⟩).resolve id .unsupported fun _ mem => mem
        simp [Subject.needs, Subject.partNames, Subject.parts, Definitions.parts,
          Subject.identities, Subject.methods, Definitions.methods, Definitions.of?, defined,
          TypeExpr.parts, TypeExpr.required]
      | some definition =>
        exact gathered_define
          ⟨wellNamed, onward_named lookup depth, findType?_named lookup depth, ih⟩
          ⟨reached, defined, plain, claim, h.gathered, Nat.le_of_lt_succ h.fits⟩

/-- A walked type is gathered, and has its node. -/
theorem gathered_addType (h : Gathered lookup.definitions walked [] walk) {expr : TypeExpr}
    (mem : expr ∈ walked) :
    Gathered lookup.definitions walked [] (addType lookup none expr walk).2 ∧
      (addType lookup none expr walk).2.atlas.Registered expr.canonicalName := by
  have gathers : Gathers lookup walked (depthBound lookup) (named lookup (depthBound lookup)) :=
    ⟨wellNamed, onward_named lookup _, findType?_named lookup _, gathered_named wellNamed _⟩
  exact ⟨((guides_gathering gathers).type (.walked mem) walk).gathered _
    ⟨h, unentered_lt_depthBound lookup walk⟩, _,
      found_type lookup gathers.onward gathers.finds expr walk⟩

theorem gathered_addTypes (exprs : List TypeExpr) (walk : Walk)
    (within : ∀ expr ∈ exprs, expr ∈ walked) (h : Gathered lookup.definitions walked [] walk) :
    Gathered lookup.definitions walked [] (addTypes lookup exprs walk) ∧
      walk.Onward (addTypes lookup exprs walk) ∧
      ∀ expr ∈ exprs, (addTypes lookup exprs walk).atlas.Registered expr.canonicalName := by
  induction exprs generalizing walk with
  | nil => exact ⟨h, .refl walk, List.forall_mem_nil _⟩
  | cons first rest ih =>
    obtain ⟨gathered, there⟩ := gathered_addType wellNamed h (within first List.mem_cons_self)
    obtain ⟨after, onward, others⟩ := ih (addType lookup none first walk).2
      (fun expr mem => within expr (List.mem_cons_of_mem _ mem)) gathered
    refine ⟨after, (carries_onward.addType lookup none first walk).trans onward, ?_⟩
    intro expr mem
    rcases List.mem_cons.1 mem with rfl | mem
    · exact there.later onward.atlas
    · exact others expr mem

end

/-- Where nothing is held every reached subject has a node, if the walked types do. -/
theorem Gathered.registered (wellNamed : WellNamed definitions walked)
    (h : Gathered definitions walked [] walk)
    (starts : ∀ expr ∈ walked, walk.atlas.Registered expr.canonicalName)
    (reached : Reached definitions walked subject) : walk.atlas.Registered subject.name := by
  -- a primitive needs nothing, and any other subject that has a node is complete
  have supplied : ∀ {subject}, Reached definitions walked subject →
      walk.atlas.Registered subject.name →
      ∀ need ∈ subject.needs definitions, walk.atlas.Registered need := by
    intro subject reached there
    by_cases basic : ∃ spelling, subject = .type (.basic spelling)
    · obtain ⟨spelling, rfl⟩ := basic
      exact List.forall_mem_nil _
    · have plain := wellNamed.plain reached fun spelling same => basic ⟨spelling, same⟩
      exact (h.complete _ reached.path plain List.not_mem_nil there).of_reached wellNamed
        (Subject.needs_congr definitions) reached
  induction reached with
  | walked mem => exact starts _ mem
  | part reached mem ih =>
    exact supplied reached ih _ (List.mem_append_left _ (List.mem_map_of_mem mem))
  | method reached mem ih =>
    exact supplied reached ih _ (List.mem_append_right _ (List.mem_map_of_mem mem))

/-- The graph has exactly the names that are needed: after types have been walked into an
empty atlas, a name leads to a node if and only if it is the name of a subject that is
reached from the walked types, or the spelling of the node for a primitive among them. -/
theorem registered_iff_needed (lookup : Lookup) (walked : List TypeExpr)
    (wellNamed : WellNamed lookup.definitions walked) (package name : String) :
    (addTypes lookup walked { atlas := {} }).atlas.Registered { package, name } ↔
      Needed lookup.definitions walked { package, name } := by
  obtain ⟨h, -, starts⟩ := gathered_addTypes wellNamed walked { atlas := {} } (fun _ mem => mem)
    gathered_empty
  constructor
  · intro there
    exact h.needed _ rfl there
  · generalize ({ package, name } : Name) = name
    intro needed
    cases needed with
    | subject reached => exact h.registered wellNamed starts reached
    | @primitive spelling canonical reached spells =>
      -- the spelling of the node is bound along with any other
      obtain ⟨id, found⟩ := h.registered wellNamed starts reached
      have bound := h.consistent.synonyms (Name.bare spelling).slot id
        (Atlas.findType?_eq_target? _ _ ▸ found)
      have same : (Name.bare spelling).slot.canonical = (Name.bare canonical).slot :=
        Slot.canonical_of_primitive spells
      rw [same] at bound
      exact ⟨id, bound⟩

/-- A structure that holds a pointer to itself and a byte under another spelling: its method
has a node and so has the byte, but the structure behind the name has none of its own. -/
theorem registered_iff_needed_recursive :
    let self : TypeExpr := .named "p" "List"
    let length : MethodExpr := ⟨"Len", none, ⟨some (.pointer self), [], [.basic "int"], false⟩⟩
    let underlying : TypeExpr := .struct [⟨"next", false, "", .pointer self, none⟩,
      ⟨"tag", false, "", .basic "uint8", none⟩]
    let lookup : Lookup :=
      { definitions := ⟨[("p", { name := "List", underlying, methods := [length] })]⟩
        comments := {} }
    let atlas := (addTypes lookup [.slice self] { atlas := {} }).atlas
    WellNamed lookup.definitions [.slice self] ∧
      atlas.Registered { package := "p", name := "List.Len" } ∧
      atlas.Registered { package := "", name := "byte" } ∧
      ¬ atlas.Registered underlying.canonicalName := by
  intro self length underlying lookup atlas
  have closed : ∀ {subject}, Reached lookup.definitions [.slice self] subject →
      subject ∈ [.type (.slice self), .type self, .type (.pointer self),
        .method { package := "p", name := "List.Len" } length, .type (.basic "int"),
        .type (.basic "uint8")] := by
    intro subject reached
    refine reached.mem_of_closed ?_ ?_ ?_
    · simp
    · simp [Subject.parts, Definitions.parts, Definitions.of?, Definitions.find?, lookup, self,
        underlying, length, TypeExpr.parts, TypeExpr.isAliased, SignatureExpr.parts]
    · simp [Subject.methods, Definitions.methods, Definitions.of?, Definitions.find?, lookup, self,
        underlying, length, TypeExpr.required, methodName, TypeExpr.canonicalName]
  have wellNamed : WellNamed lookup.definitions [.slice self] := by
    refine wellNamed_of_mem closed (by decide) ?_
    simp only [List.forall_mem_cons]
    exact ⟨fun _ => rfl, fun _ => rfl, fun _ => rfl, fun _ => rfl,
      fun noBasic => absurd rfl (noBasic "int"), fun noBasic => absurd rfl (noBasic "uint8"),
      List.forall_mem_nil _⟩
  have reached : Reached lookup.definitions [.slice self] (.type self) :=
    .part (.walked List.mem_cons_self) List.mem_cons_self
  have entry : ({ package := "p", name := "List.Len" }, length) ∈
      (Subject.type self).methods lookup.definitions := List.mem_cons_self
  have byte : Reached lookup.definitions [.slice self] (.type (.basic "uint8")) :=
    .part reached (List.mem_cons_of_mem _ List.mem_cons_self)
  have only : ∀ name, Needed lookup.definitions [.slice self] name →
      name ∈ [(.slice self : TypeExpr).canonicalName, self.canonicalName,
        (.pointer self : TypeExpr).canonicalName, { package := "p", name := "List.Len" },
        .bare "int", .bare "uint8"] ∨ Atlas.primitive? name ≠ none := by
    intro name needed
    cases needed with
    | subject reached => exact .inl (List.mem_map_of_mem (f := Subject.name) (closed reached))
    | primitive reached spells =>
      exact .inr (Option.ne_none_iff_exists'.2 ⟨_, Primitive.canonical?_canonical spells⟩)
  refine ⟨wellNamed, ?_, ?_, ?_⟩
  · exact (registered_iff_needed lookup _ wellNamed _ _).2 (.subject (.method reached entry))
  · exact (registered_iff_needed lookup _ wellNamed _ _).2 (.primitive byte rfl)
  · intro there
    rcases only _ ((registered_iff_needed lookup _ wellNamed _ _).1 there) with mem | spelled
    · revert mem
      decide
    · exact spelled rfl

end Walk

end GoAtlas
