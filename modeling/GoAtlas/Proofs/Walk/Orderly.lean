import GoAtlas.Proofs.Walk.Found
import GoAtlas.Proofs.Walk.Tidy

/-!
# Every part of a walk keeps order

`Tidy` is carried through the walk here. What is asked of a walk, `here`, is closed
under what its topics lead to and is among all that is met, `met`. The number of
definitions left to enter stays below the room there is (`Ready`), so the walk never
stops short. A node is described in order when the walk of its parts ends in order, for
what is found there is settled by the nodes it refers to (`prepared_describe`).
-/

namespace GoAtlas.Walk

/-- The walk is in order, and there is room for the definitions that are left. -/
structure Ready (met : Topic → Prop) (pending : Option NodeId) (definitions : Definitions)
    (room : Nat) (walk : Walk) : Prop where
  tidy : Tidy met pending walk
  fits : walk.unentered definitions < room

theorem Ready.onward {met : Topic → Prop} {pending : Option NodeId} {definitions : Definitions}
    {room : Nat} {before after : Walk} (h : Ready met pending definitions room before)
    (onward : before.Onward after) (tidy : Tidy met pending after) :
    Ready met pending definitions room after :=
  ⟨tidy, Nat.lt_of_le_of_lt onward.unentered_le h.fits⟩

/-- A kind and methods that were found for a node, in order. -/
structure Prepared (met : Topic → Prop) (pending : Option NodeId)
    (result : (Kind × Table NodeId) × Walk) : Prop where
  tidy : Tidy met pending result.2
  finished : result.1.1 ≠ .declaration none
  bounded : ∀ ref ∈ result.1.1.refs, ref < result.2.atlas.nodeCount
  listed : Listed met result.2.atlas result.1.2

variable {met here : Topic → Prop} {pending : Option NodeId} {walk claimed : Walk} {name : Name}
  {id : NodeId}

/-! ## Nodes -/

/-- A node that is given to a type, or described as a function, is in order. -/
theorem Tidy.node {describe : Walk → (Kind × Table NodeId) × Walk} (h : Tidy met pending walk)
    (onward : ∀ walk, Onward walk (describe walk).2)
    (known : ∀ walk, (describe walk).1.1.isUnknown = false)
    (described : ∀ id claimed, walk.claim name = ((id, true), claimed) →
      Prepared met pending (describe (claimed.start name)))
    (permitted : (∃ expr, met (.type name expr)) ∨ ∀ walk, (describe walk).1.1.isFunc = true) :
    Tidy met pending (walk.node name describe).2 := by
  unfold Walk.node
  rcases claim : walk.claim name with ⟨⟨id, fresh⟩, claimed⟩
  cases fresh with
  | false => exact h.claim_old claim
  | true =>
    have parts := described id claimed claim
    have found := ((onward (claimed.start name)).node_of_claim claim).1
    dsimp only
    rw [if_pos rfl]
    refine (parts.tidy.finish found ⟨known _, parts.finished, parts.bounded, ?_⟩).setMethods id ?_
    · rcases permitted with ⟨expr, asked⟩ | func
      · exact parts.tidy.function_of_type asked found _
      · exact fun _ _ _ _ _ => func _
    · exact parts.listed.later (Atlas.Extends.resolve _ _ _).bound

/-- The node of a type may be unsupported. -/
theorem Tidy.allowed_unsupported (h : Tidy met pending walk) {expr : TypeExpr}
    (asked : met (.type name expr)) (found : walk.atlas.findType? name = some id) :
    Allowed met walk.atlas id .unsupported :=
  ⟨rfl, nofun, nofun, h.function_of_type asked found .unsupported⟩

/-- A type that is claimed and unsupported is in order. -/
theorem Tidy.resolve_claim (h : Tidy met pending walk) {expr : TypeExpr}
    (asked : met (.type name expr)) :
    Tidy met pending { (walk.claim name).2 with
      atlas := (walk.claim name).2.atlas.resolve (walk.claim name).1.1 .unsupported } := by
  have found := findType?_claim walk name
  rcases claim : walk.claim name with ⟨⟨id, fresh⟩, claimed⟩
  rw [claim] at found
  cases fresh with
  | false =>
    have tidy := h.claim_old claim
    exact tidy.resolve (tidy.allowed_unsupported asked found)
  | true =>
    -- as if the name were busy for a moment
    have tidy := h.start claim
    have done := tidy.finish found (tidy.allowed_unsupported asked found)
    rwa [Walk.finish, Walk.start, List.erase_cons_head] at done

theorem Tidy.basic (h : Tidy met pending walk) {spelling : String}
    (asked : met (.type (.bare spelling) (.basic spelling))) :
    Tidy met pending (walk.basic spelling).2 := by
  rw [basic_eq]
  dsimp only
  by_cases registered : Primitive.isRegistered spelling = true
  · rw [if_pos registered]
    refine h.claim rfl (fun _ mem => mem) fun marker => ?_
    -- the node of a registered primitive is no marker
    have consistent : (walk.claim (.bare spelling)).2.atlas.Consistent := h.consistent.typeNode _
    obtain ⟨canonical, spells⟩ := Option.isSome_iff_exists.1 registered
    have primitive : (Name.bare spelling).slot.primitive? = some canonical := spells
    obtain ⟨node, hn, describes⟩ := consistent.described (Name.bare spelling).slot _
      (findType?_claim walk (.bare spelling))
    have kind := ((Slot.describes_primitive primitive).1 describes).2
    rw [Atlas.isMarker, hn, Option.any_some, Node.isResolved, kind] at marker
    cases marker
  · rw [if_neg registered]
    exact h.resolve_claim asked

/-! ## Parts -/

/-- The walk goes onward, and stays in order where there is room. -/
structure Tidies (met : Topic → Prop) (pending : Option NodeId) (definitions : Definitions)
    (room : Nat) (before after : Walk) : Prop where
  onward : before.Onward after
  tidy : Ready met pending definitions room before → Tidy met pending after

section Parts

variable {lookup : Lookup} {expand : String → String → Walk → NodeId × Walk} {room : Nat}
  (expands : ∀ package name walk, Onward walk (expand package name walk).2)
  (finds : ∀ package name walk,
    (expand package name walk).2.atlas.findType? { package, name } =
      some (expand package name walk).1)

include expands in
/-- The table of methods that are met is in order. -/
theorem listed_methodsOf {ownerOf : MethodExpr → Name} {methods : List MethodExpr}
    (all : ∀ method ∈ methods, met (.method (methodName (ownerOf method) method.name) method))
    (walk : Walk) : Listed met (methodsOf lookup expand ownerOf methods ∅ walk).2.atlas
      (methodsOf lookup expand ownerOf methods ∅ walk).1 := by
  intro key id there
  rcases get?_methodsOf lookup expands ownerOf methods ∅ walk there with
    ⟨method, mem, -, found⟩ | earlier
  · exact ⟨_, _, all method mem, found⟩
  · cases earlier

include expands finds in
/-- What is found for a type is in order when the walk is. -/
theorem prepared_describe {owner : Name} {expr : TypeExpr}
    (required : ∀ entry ∈ expr.required owner, met (.method entry.1 entry.2))
    (tidy : Tidy met pending (describe lookup expand owner expr walk).2) :
    Prepared met pending (describe lookup expand owner expr walk) where
  tidy := tidy
  finished := by cases expr <;> exact nofun
  bounded ref mem := by
    by_cases composite : expr.isComposite = true
    · have parts := TypeExpr.map_parts (kind?_describe lookup expands finds owner composite walk)
      rw [Kind.refs_bare] at parts
      obtain ⟨part, -, found⟩ := List.mem_map.1 (parts ▸ List.mem_map_of_mem mem)
      exact tidy.lt_nodeCount found
    · cases expr with
      | basic spelling | named package name => cases mem
      | _ => exact absurd rfl composite
  listed := by
    cases expr with
    | interface methods =>
      exact listed_methodsOf expands (fun _ mem => required _ (List.mem_map_of_mem mem)) walk
    | _ => exact listed_empty _

variable (tidies : ∀ package name walk, here (.ofType (.named package name)) →
    Ready met pending lookup.definitions room walk →
    Tidy met pending (expand package name walk).2)
  (sub : ∀ topic, here topic → met topic)
  (closed : ∀ topic other, here topic → other ∈ topic.next lookup.definitions → here other)

include expands finds sub closed in
theorem tidies_node {expr : TypeExpr} (asked : here (.type name expr))
    (describes : ∀ walk, Tidies met pending lookup.definitions room walk
      (describe lookup expand name expr walk).2) (walk : Walk) :
    Tidies met pending lookup.definitions room walk
      (walk.node name (describe lookup expand name expr)).2 where
  onward := carries_onward.node (fun walk => (describes walk).onward) walk name
  tidy ready := by
    refine ready.tidy.node (fun walk => (describes walk).onward) (describe_known lookup expand _ _)
      (fun id claimed claim => ?_) (.inl ⟨expr, sub _ asked⟩)
    refine prepared_describe expands finds (fun entry mem => ?_) ((describes _).tidy
      ⟨ready.tidy.start claim, Nat.lt_of_le_of_lt (unentered_start claim) ready.fits⟩)
    exact sub _ (closed _ _ asked (Topic.required_mem mem))

include expands finds tidies sub closed

theorem guides_tidies : Guides lookup expand (fun expr => here (.ofType expr))
    (fun identity method => here (.method identity method))
    (Tidies met pending lookup.definitions room) where
  refl walk := ⟨.refl walk, Ready.tidy⟩
  trans h h' := ⟨h.onward.trans h'.onward,
    fun ready => h'.tidy (ready.onward h.onward (h.tidy ready))⟩
  basic mem walk := ⟨carries_onward.basic walk _, fun ready => ready.tidy.basic (sub _ mem)⟩
  named mem walk := ⟨expands _ _ walk, tidies _ _ walk mem⟩
  node _ mem describes walk := tidies_node expands finds sub closed mem describes walk
  method {identity method} mem describes walk := by
    refine ⟨onward_method lookup expands method identity walk, fun ready => ?_⟩
    rw [method_eq_node]
    refine Tidy.setMethodComments (ready.tidy.node (fun walk => (describes walk).onward)
      (fun _ => rfl) (fun id claimed claim => ?_) (.inr fun _ => rfl)) _ _
    exact prepared_describe expands finds (List.forall_mem_nil _) ((describes _).tidy
      ⟨ready.tidy.start claim, Nat.lt_of_le_of_lt (unentered_start claim) ready.fits⟩)
  askedPart _ mem _ part := closed _ _ mem (Topic.part_mem part)
  askedMethod _ mem _ entry := closed _ _ mem (Topic.required_mem entry)
  askedSignature mem _ part := closed _ _ mem (List.mem_map_of_mem part)

variable {package name : String} {definition : Definition} (tidy : Tidy met pending walk)
  (claim : walk.claim { package, name } = ((id, true), claimed))
  (found : lookup.definitions.find? package name = some definition)
  (asked : here (.ofType (.named package name)))
  (fits : walk.unentered lookup.definitions ≤ room)

include tidy claim found asked fits

/-- A named type is given its kind in order. -/
theorem tidy_defineKind :
    Tidy met pending (defineKind lookup expand claimed id { package, name } definition) := by
  have guides := guides_tidies expands finds tidies sub closed
  have below : Ready met pending lookup.definitions room (claimed.start { package, name }) :=
    ⟨tidy.start claim,
      Nat.lt_of_lt_of_le (unentered_start_lt claim (Definitions.mem_names found)) fits⟩
  have structure_ := closed _ _ asked (Topic.definition_mem found List.mem_cons_self)
  cases aliased : definition.underlying.isAliased with
  | true =>
    rw [if_pos aliased] at structure_
    have inner := (guides.type structure_ _).tidy below
    have there := inner.lt_nodeCount (found_type lookup expands finds definition.underlying _)
    have leads := ((onward_type lookup expands none definition.underlying _).node_of_claim claim).1
    rw [defineKind, if_pos aliased]
    exact inner.finish leads ⟨rfl, fun open_ => (by cases open_),
      fun ref mem => List.mem_singleton.1 mem ▸ there,
      inner.function_of_type (sub _ asked) leads _⟩
  | false =>
    rw [if_neg (ne_true_of_eq_false aliased)] at structure_
    have required : ∀ entry ∈ definition.underlying.required { package, name },
        here (.method entry.1 entry.2) :=
      fun _ mem => closed _ _ structure_ (Topic.required_mem mem)
    rw [defineKind_of_claim lookup expand claim aliased]
    refine tidy.node (onward_describe lookup expands _ _) (describe_known lookup expand _ _)
      (fun place after again => ?_) (.inl ⟨_, sub _ structure_⟩)
    rw [claim] at again
    cases again
    exact prepared_describe expands finds (fun entry mem => sub _ (required entry mem))
      ((guides.describe _ _ (fun _ mem => closed _ _ structure_ (Topic.part_mem mem))
        required _).tidy below)

theorem tidy_define :
    Tidy met pending (define lookup expand claimed id { package, name } definition) := by
  have kind := tidy_defineKind expands finds tidies sub closed tidy claim found asked fits
  rw [define_eq, addMethods]
  split
  · have methods : ∀ method ∈ definition.methods,
        here (.method (methodName { package, name } method.name) method) := fun method mem =>
      closed _ _ asked (Topic.definition_mem found
        (List.mem_cons_of_mem _ (List.mem_map.2 ⟨method, mem, rfl⟩)))
    have later := ((guides_tidies expands finds tidies sub closed).methodsOf
      (fun _ => { package, name }) definition.methods methods ∅ _).tidy ⟨kind, Nat.lt_of_lt_of_le
        (unentered_defineKind_lt lookup expands claim (Definitions.mem_names found) definition)
        fits⟩
    exact later.setMethods id
      (listed_methodsOf expands (fun method mem => sub _ (methods method mem)) _)
  · exact kind

end Parts

/-! ## Named types and visits -/

section Visits

variable {lookup : Lookup} (sub : ∀ topic, here topic → met topic)
  (closed : ∀ topic other, here topic → other ∈ topic.next lookup.definitions → here other)

include sub closed

/-- Named types are walked in order within any depth there is room for. -/
theorem tidy_named (depth : Nat) (package name : String) (walk : Walk)
    (asked : here (.ofType (.named package name)))
    (ready : Ready met pending lookup.definitions depth walk) :
    Tidy met pending (named lookup depth package name walk).2 := by
  induction depth generalizing package name walk with
  | zero => exact absurd ready.fits (Nat.not_lt_zero _)
  | succ depth ih =>
    rw [named]
    rcases claim : walk.claim { package, name } with ⟨⟨id, fresh⟩, claimed⟩
    have unsupported : Tidy met pending
        { claimed with atlas := claimed.atlas.resolve id .unsupported } := by
      have done := ready.tidy.resolve_claim (sub _ asked)
      rwa [TypeExpr.canonicalName, claim] at done
    cases fresh with
    | false => exact ready.tidy.claim_old claim
    | true =>
      dsimp only
      rw [if_pos rfl]
      cases found : lookup.definitions.find? package name with
      | none => exact unsupported
      | some definition =>
        exact tidy_define (onward_named lookup depth) (findType?_named lookup depth) ih sub closed
          ready.tidy claim found asked (Nat.le_of_lt_succ ready.fits)

theorem tidy_addType {useName : Option Name} {expr : TypeExpr} (asked : here (.walked useName expr))
    (tidy : Tidy met pending walk) :
    Tidy met pending (addType lookup useName expr walk).2 ∧
      (addType lookup useName expr walk).1 <
        (addType lookup useName expr walk).2.atlas.nodeCount := by
  have expands := onward_named lookup (depthBound lookup)
  have finds := findType?_named lookup (depthBound lookup)
  have tidies := @tidy_named met here pending lookup sub closed (depthBound lookup)
  have guides := guides_tidies expands finds tidies sub closed
  have ready : Ready met pending lookup.definitions (depthBound lookup) walk :=
    ⟨tidy, unentered_lt_depthBound lookup walk⟩
  unfold addType
  by_cases composite : expr.isComposite = true
  · rw [Topic.walked, if_pos composite] at asked
    rw [type_eq_node lookup _ useName composite]
    have later := (tidies_node expands finds sub closed asked (guides.describe expr _
      (fun _ mem => closed _ _ asked (Topic.part_mem mem))
      fun _ mem => closed _ _ asked (Topic.required_mem mem)) walk).tidy ready
    exact ⟨later,
      later.lt_nodeCount (findType?_node (onward_describe lookup expands expr _) walk _)⟩
  · rw [Topic.walked, if_neg composite] at asked
    have same : type lookup (named lookup (depthBound lookup)) useName expr walk =
        type lookup (named lookup (depthBound lookup)) none expr walk := by
      cases expr with
      | basic spelling | named package name => rfl
      | _ => exact absurd rfl composite
    have later := (guides.type asked walk).tidy ready
    rw [same]
    exact ⟨later, later.lt_nodeCount (found_type lookup expands finds expr walk)⟩

theorem tidy_declare {sort : DeclarationSort} {expr : TypeExpr} (asked : here (.ofType expr))
    (tidy : Tidy met none walk) (name : Name) :
    Tidy met none (Walk.declare lookup sort name expr walk).2 := by
  unfold Walk.declare
  obtain ⟨inner, there⟩ := tidy_addType sub closed (Topic.walked_none expr ▸ asked)
    (tidy.declarationNode sort name)
  exact inner.declare there

end Visits

end GoAtlas.Walk
