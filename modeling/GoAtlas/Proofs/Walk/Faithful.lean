import GoAtlas.Proofs.Walk.Found
import GoAtlas.Proofs.Walk.Settled

/-!
# The graph is faithful

A walk builds for every subject it reaches the node the subject should have
(`faithful_addTypes`). Within one expression each node is a step, with the way
named types are entered as a hypothesis (`Expands`); the rest is induction on the
number of definitions that may still be entered. A definition is entered only while
its name is free, and held from then on, so the definitions that are not held always
suffice.
-/

namespace GoAtlas

variable {expr : TypeExpr} {definition : Definition} {package : String}

/-! ## Names of subjects -/

theorem Definitions.methods_path (definitions : Definitions) (type : TypeExpr) :
    ∀ entry ∈ definitions.methods type, ∃ owner method, entry.1 = methodName owner method := by
  intro entry mem
  unfold Definitions.methods at mem
  split at mem
  · simp only at mem
    split at mem
    · obtain ⟨method, -, rfl⟩ := List.mem_map.1 mem
      exact ⟨_, _, rfl⟩
    · exact TypeExpr.required_path mem
  · exact TypeExpr.required_path mem

variable {definitions : Definitions} {walked : List TypeExpr}

theorem Reached.path {subject : Subject} (h : Reached definitions walked subject) :
    subject.name.path = none := by
  cases h with
  | walked mem | part _ mem => exact TypeExpr.path_canonicalName _
  | @method owner entry _ mem =>
    cases owner with
    | method identity expr => cases mem
    | type expr =>
      obtain ⟨owner, method, named⟩ := definitions.methods_path expr entry mem
      rw [Subject.name, named]
      rfl

/-- A reached subject is not named like a registered primitive, unless it is a
primitive. -/
theorem WellNamed.plain (wellNamed : WellNamed definitions walked) {subject : Subject}
    (h : Reached definitions walked subject)
    (noBasic : ∀ spelling, subject ≠ .type (.basic spelling)) :
    Atlas.primitive? subject.name = none := by
  cases subject with
  | type expr =>
    exact wellNamed.primitives expr h fun name eq => noBasic name (congrArg Subject.type eq)
  | method identity expr =>
    cases h with
    | @method owner entry _ mem =>
      cases owner with
      | method identity expr => cases mem
      | type expr =>
        obtain ⟨owner, method, named⟩ := definitions.methods_path expr entry mem
        rw [Subject.name, named]
        exact primitive?_methodName owner method

/-! ## Definitions that may still be entered -/

/-- The number of definitions whose names are not held. -/
def Definitions.remaining (definitions : Definitions) (held : List Name) : Nat :=
  (definitions.names.filter fun name => name ∉ held).length

namespace Definitions

variable (definitions)

theorem remaining_cons (name : Name) (held : List Name) :
    definitions.remaining (name :: held) =
      ((definitions.names.filter fun other => other ∉ held).filter
        fun other => other ≠ name).length := by
  rw [remaining, List.filter_filter]
  refine congrArg List.length (List.filter_congr fun other _ => ?_)
  simp [not_or]

theorem remaining_cons_le (name : Name) (held : List Name) :
    definitions.remaining (name :: held) ≤ definitions.remaining held := by
  rw [remaining_cons]
  exact List.length_filter_le _ _

theorem remaining_cons_lt {name : Name} {held : List Name}
    (mem : name ∈ definitions.names) (free : name ∉ held) :
    definitions.remaining (name :: held) < definitions.remaining held := by
  have there : name ∈ definitions.names.filter fun other => other ∉ held :=
    List.mem_filter.2 ⟨mem, by simpa using free⟩
  rw [remaining_cons]
  exact List.length_filter_lt_length_iff_exists.2 ⟨name, there, by simp⟩

theorem of?_composite {expr : TypeExpr} (composite : expr.isComposite = true) :
    definitions.of? expr = none := by
  cases expr with
  | basic name | named package name => cases composite
  | _ => rfl

theorem parts_composite (composite : expr.isComposite = true) :
    (Subject.type expr).parts definitions = expr.parts := by
  rw [Subject.parts, Definitions.parts, definitions.of?_composite composite]

theorem methods_composite (composite : expr.isComposite = true) :
    (Subject.type expr).methods definitions = expr.required expr.canonicalName := by
  rw [Subject.methods, Definitions.methods, definitions.of?_composite composite]

end Definitions

section

variable {name : String} (defined : definitions.find? package name = some definition)

include defined

theorem Definitions.parts_of_find? :
    (Subject.type (.named package name)).parts definitions =
      if definition.underlying.isAliased then [definition.underlying]
      else definition.underlying.parts := by
  simp only [Subject.parts, Definitions.parts, Definitions.of?, defined]

theorem Definitions.methods_of_find? :
    (Subject.type (.named package name)).methods definitions =
      if (definition.underlying.required { package, name }).isEmpty then
        definition.methods.map fun method => (methodName { package, name } method.name, method)
      else definition.underlying.required { package, name } := by
  simp only [Subject.methods, Definitions.methods, Definitions.of?, defined]
  rfl

theorem Definitions.methods_of_required
    (some : definition.underlying.required { package, name } ≠ []) :
    (Subject.type (.named package name)).methods definitions =
      definition.underlying.required { package, name } :=
  (methods_of_find? defined).trans (if_neg fun empty => some (List.isEmpty_iff.1 empty))

end

namespace Walk

/-! ## Within one expression -/

variable (lookup : Lookup) (expand : String → String → Walk → NodeId × Walk)

/-- A part of the walk is a step whatever is held, as long as fewer than `room` definitions
remain. -/
def Steps (definitions : Definitions) (walked : List TypeExpr) (room : Nat)
    (before after : Walk) : Prop :=
  ∀ held, definitions.remaining held < room → Settled definitions walked held before →
    Step definitions walked held before after

/-- Named types are entered faithfully. -/
structure Expands (definitions : Definitions) (walked : List TypeExpr)
    (expand : String → String → Walk → NodeId × Walk) (room : Nat) : Prop where
  onward : ∀ package name walk, Onward walk (expand package name walk).2
  finds : ∀ package name walk,
    (expand package name walk).2.atlas.findType? { package, name } =
      some (expand package name walk).1
  steps : ∀ package name, Reached definitions walked (.type (.named package name)) → ∀ walk,
    Steps definitions walked room walk (expand package name walk).2

variable {definitions : Definitions} {walked : List TypeExpr} {held : List Name} {walk : Walk}

theorem basic_step (unambiguous : Unambiguous definitions walked)
    (h : Settled definitions walked held walk) {name : String}
    (reached : Reached definitions walked (.type (.basic name))) :
    Step definitions walked held walk (walk.basic name).2 := by
  cases registered : Primitive.canonical? name with
  | some spelling =>
    have spells : Atlas.primitive? (.bare name) = some spelling := registered
    have same : walk.basic name = ((walk.atlas.typeNode (.bare name)).1,
        { walk with atlas := (walk.atlas.typeNode (.bare name)).2 }) := by
      simp only [basic, Primitive.isRegistered, registered, Option.isSome_some, if_true]
    rw [same]
    exact h.step_primitive spells
  | none =>
    have plain : Atlas.primitive? (.bare name) = none := registered
    have same : walk.basic name = ((walk.atlas.typeNode (.bare name)).1,
        ⟨(walk.atlas.typeNode (.bare name)).2.resolve (walk.atlas.typeNode (.bare name)).1
          .unsupported, walk.busy⟩) := by
      simp [basic, Primitive.isRegistered, registered]
    rw [same]
    cases found : walk.atlas.view (.bare name) with
    | none =>
      rw [Atlas.typeNode_of_free (h.consistent.findType?_eq_none found) plain]
      have asked : ∀ node,
          (Subject.type (.basic name)).kind? definitions node = some .unsupported := by
        intro node
        simp [Subject.kind?, Definitions.kind?, Definitions.of?, TypeExpr.kind?,
          Primitive.isRegistered, registered]
      exact h.resolve_free rfl plain found reached rfl asked rfl rfl
    | some shown =>
      -- the name is not held: what is held is no primitive, and names are unambiguous
      have known : shown.2.kind.isUnknown = false := by
        refine (h.described rfl plain found).resolve_right fun busy => ?_
        obtain ⟨-, -, ⟨subject, also, named, noBasic⟩, -⟩ := h.pending _ (h.busy _ busy)
        have agrees := unambiguous.agrees reached also named.symm
        cases subject with
        | method identity expr => exact agrees
        | type expr =>
          cases expr with
          | basic other => exact noBasic other rfl
          | _ => cases agrees
      rw [Atlas.typeNode_of_view found, Atlas.resolve, isMarker_of_view found, known]
      exact Step.refl h

variable {expand} {room : Nat}

section Parts

variable (unambiguous : Unambiguous definitions walked)
  (expands : Expands definitions walked expand room)

include expands in
/-- The parts of a node were walked in steps, so what is found for it is as it should be. -/
theorem described_of_steps {owner : Name} {expr : TypeExpr} (composite : expr.isComposite = true)
    (distinct : ((expr.required owner).map fun entry => entry.2.name).Nodup)
    (step : Step definitions walked held walk (describe lookup expand owner expr walk).2) :
    Described definitions walked held (fun node => expr.kind? node) (expr.required owner) walk
      (describe lookup expand owner expr walk) :=
  ⟨step, kind?_describe lookup expands.onward expands.finds owner composite walk,
    lists_describe lookup expands.onward distinct walk⟩

include unambiguous expands

/-- A node is walked in steps when its parts and its methods are. -/
theorem guides_steps : Guides lookup expand
    (fun expr => Reached definitions walked (.type expr))
    (fun identity method => Reached definitions walked (.method identity method))
    (Steps definitions walked room) where
  refl _ _ _ h := Step.refl h
  trans h h' held enough settled :=
    have first := h held enough settled
    first.trans (h' held enough first.settled)
  basic reached _ _ _ h := basic_step unambiguous h reached
  named reached walk := expands.steps _ _ reached walk
  node {expr} composite reached describes walk held enough h := by
    have noBasic : ∀ spelling, Subject.type expr ≠ .type (.basic spelling) := by
      intro spelling eq
      cases eq
      cases composite
    have methods := definitions.methods_composite composite
    refine node_step h reached.path (unambiguous.plain reached noBasic) reached rfl noBasic
      fun walk settled => ?_
    have result := described_of_steps lookup expands composite
      (methods ▸ unambiguous.distinct expr reached) (describes walk (expr.canonicalName :: held)
        (Nat.lt_of_le_of_lt (definitions.remaining_cons_le _ _) enough) settled)
    simpa only [Subject.name, Subject.kind?, Definitions.kind?,
      definitions.of?_composite composite, methods] using result
  method {identity method} reached describes walk held enough h := by
    have noBasic : ∀ spelling, Subject.method identity method ≠ .type (.basic spelling) := by
      intro spelling eq
      cases eq
    rw [method_eq_node]
    have described (walk : Walk) (settled : Settled definitions walked (identity :: held) walk) :
        Described definitions walked (identity :: held)
          (fun node => (TypeExpr.func method.signature).kind? node) [] walk
          (describe lookup expand identity (.func method.signature) walk) :=
      described_of_steps lookup expands rfl List.nodup_nil (describes walk _
        (Nat.lt_of_le_of_lt (definitions.remaining_cons_le _ _) enough) settled)
    have step := node_step h reached.path (unambiguous.plain reached noBasic) reached rfl noBasic
      described
    exact step.trans (step.settled.setMethodComments _ _)
  askedPart composite reached _ mem :=
    .part reached (definitions.parts_composite composite ▸ mem)
  askedMethod composite reached _ mem :=
    .method reached (definitions.methods_composite composite ▸ mem)
  askedSignature reached _ mem := .part reached mem

end Parts

/-! ## Named types -/

theorem required_eq_nil_iff {atlas : Atlas} {required : List (Name × MethodExpr)}
    {table : Table NodeId} (lists : Lists atlas required table) :
    table.isEmpty = true ↔ required = [] := by
  rw [Table.isEmpty_iff_get?]
  constructor
  · intro none
    cases required with
    | nil => rfl
    | cons entry rest =>
      obtain ⟨id, found⟩ := lists.known entry List.mem_cons_self
      have listed := (lists.exact entry.2.name id).2 ⟨entry, List.mem_cons_self, rfl, found⟩
      rw [none] at listed
      cases listed
  · rintro rfl name
    cases found : table.get? name with
    | none => rfl
    | some id =>
      obtain ⟨entry, mem, -⟩ := (lists.exact name id).1 found
      cases mem

theorem required_of_aliased {expr : TypeExpr} (aliased : expr.isAliased = true) (owner : Name) :
    expr.required owner = [] := by
  cases expr with
  | interface methods => cases aliased
  | _ => rfl

section Definitions

variable {package name : String} {definition : Definition} {before : Walk}
  (unambiguous : Unambiguous definitions walked) (expands : Expands definitions walked expand room)
  (defined : definitions.find? package name = some definition)
  (reached : Reached definitions walked (.type (.named package name)))
  (enough : definitions.remaining ({ package, name } :: held) < room)

include unambiguous expands defined reached enough

/-- With its methods a named type is finished: an interface that requires
methods has them already, any other type is given those declared on it. -/
theorem addMethods_step (h : Settled definitions walked held before)
    (opened : Opened definitions walked held { package, name } before walk)
    (busy : walk.busy = before.busy) {id : NodeId} {shown : Node}
    (view : walk.atlas.view { package, name } = some (id, shown))
    (kind : definitions.kind? walk.atlas.typeNode? (.named package name) = some shown.kind)
    (lists : Lists walk.atlas (definition.underlying.required { package, name }) shown.methods) :
    Step definitions walked held before
      (addMethods lookup expand walk id { package, name } definition) := by
  have known : shown.kind.isUnknown = false :=
    @Subject.kind?_known definitions (.type (.named package name)) _ _ kind
  have methods := Definitions.methods_of_find? defined
  have checked : ((walk.atlas.node? id).all fun node => node.methods.isEmpty) =
      shown.methods.isEmpty := by
    obtain ⟨-, node, hn, rfl⟩ := Atlas.view_eq_some.1 view
    rw [hn]
    rfl
  unfold addMethods
  rw [checked]
  cases empty : shown.methods.isEmpty with
  | false =>
    have some : (definition.underlying.required { package, name }).isEmpty = false := by
      rw [← Bool.not_eq_true, List.isEmpty_iff, ← required_eq_nil_iff lists, empty]
      exact Bool.false_ne_true
    rw [some] at methods
    refine opened.close h busy reached rfl ⟨id, shown, view, kind, ?_⟩
    rw [methods]
    exact lists
  | true =>
    have none := (required_eq_nil_iff lists).1 empty
    rw [none] at methods
    have declared : ∀ method ∈ definition.methods,
        Reached definitions walked (.method (methodName { package, name } method.name) method) := by
      intro method mem
      refine @Reached.method _ _ _ (methodName { package, name } method.name, method) reached ?_
      rw [methods]
      exact List.mem_map_of_mem mem
    have distinct : (((Subject.type (.named package name)).methods definitions).map
      fun entry => entry.2.name).Nodup := unambiguous.distinct _ reached
    rw [methods, List.isEmpty_nil, if_pos rfl, List.map_map] at distinct
    have step := (guides_steps lookup unambiguous expands).methodsOf (fun _ => { package, name })
      definition.methods declared ∅ walk _ enough opened.settled
    obtain ⟨done, idle, found⟩ := (opened.step step).setMethods (step.grows _ _ view) known
      ((Table.isEmpty_iff _).1 empty)
      (methodsOf lookup expand (fun _ => { package, name }) definition.methods ∅ walk).1
    have same := findType?_setMethods
      (methodsOf lookup expand (fun _ => { package, name }) definition.methods ∅ walk).2 id
      (methodsOf lookup expand (fun _ => { package, name }) definition.methods ∅ walk).1
    refine done.close h (idle.trans (step.busy.trans busy)) reached rfl ⟨id, _, found, ?_, ?_⟩
    · rw [typeNode?_eq same]
      exact @Subject.kind?_of_kind? definitions (.type (.named package name)) _ _
        (step.grows.typeNode? opened.settled.consistent) _ kind
    · rw [methods]
      exact lists_eq same (lists_methodsOf lookup expands.onward _ _ walk distinct)

/-- A free named type that has a definition is described by it. -/
theorem define_step (h : Settled definitions walked held walk)
    (free : walk.atlas.view { package, name } = none) :
    Step definitions walked held walk (define lookup expand (walk.claim { package, name }).2
      (walk.claim { package, name }).1.1 { package, name } definition) := by
  have noBasic : ∀ spelling, Subject.type (.named package name) ≠ .type (.basic spelling) := nofun
  have plain : Atlas.primitive? { package, name } = none := unambiguous.plain reached noBasic
  have parts := Definitions.parts_of_find? defined
  have kinds : ∀ node, definitions.kind? node (.named package name) =
      if definition.underlying.isAliased then (node definition.underlying).map .aliasOf
      else definition.underlying.kind? node := by
    intro node
    simp only [Definitions.kind?, Definitions.of?, defined]
  unfold define
  cases aliased : definition.underlying.isAliased with
  | true =>
    rw [aliased, if_pos rfl] at parts
    obtain ⟨id, claimed, fresh, opened, busy, marked⟩ :=
      h.start rfl plain reached rfl noBasic free
    have step := (guides_steps lookup unambiguous expands).type
      (.part reached (parts ▸ List.mem_cons_self)) _ _ enough opened.settled
    have leads := found_type lookup expands.onward expands.finds definition.underlying
      (claimed.start { package, name })
    obtain ⟨done, idle, found⟩ := (opened.step step).finish
      (step.grows _ _ marked) rfl (step.busy.trans busy)
      (.aliasOf (type lookup expand none definition.underlying
        (claimed.start { package, name })).1) rfl
    rw [fresh]
    refine addMethods_step lookup unambiguous expands defined reached enough h done idle found ?_ ?_
    · rw [kinds, aliased, if_pos rfl, typeNode?_eq (findType?_finish _ _ _ _), leads]
      rfl
    · rw [required_of_aliased aliased]
      exact lists_nil _
  | false =>
    rw [aliased, if_neg Bool.false_ne_true] at parts
    have composite := composite_of_not_aliased aliased
    have twice : type lookup expand (some { package, name }) definition.underlying
        (walk.claim { package, name }).2 =
          walk.node { package, name } (describe lookup expand { package, name }
            definition.underlying) := by
      rw [type_eq_node lookup expand _ composite, node, node]
      simp only [Option.getD_some, h.claim_claim plain free]
    have methods := Definitions.methods_of_required defined
    have distinct : ((definition.underlying.required { package, name }).map
        fun entry => entry.2.name).Nodup := by
      by_cases none : definition.underlying.required { package, name } = []
      · rw [none]
        exact List.nodup_nil
      · exact methods none ▸ unambiguous.distinct _ reached
    obtain ⟨shown, opened, busy, view, kind, lists⟩ :=
      @node_of_free _ _ _ _ _ (fun node => definition.underlying.kind? node)
        (definition.underlying.required { package, name })
        (describe lookup expand { package, name } definition.underlying) h rfl plain _ reached rfl
        noBasic free (fun _ _ => TypeExpr.kind?_known) fun walk settled =>
          described_of_steps lookup expands composite distinct
            ((guides_steps lookup unambiguous expands).describe definition.underlying
              { package, name } (fun part mem => .part reached (parts ▸ mem))
              (fun entry mem => .method reached (methods (List.ne_nil_of_mem mem) ▸ mem)) walk _
              enough settled)
    rw [if_neg Bool.false_ne_true, twice]
    rw [node_fst] at view
    refine addMethods_step lookup unambiguous expands defined reached enough h opened busy view ?_
      lists
    rw [kinds, aliased, if_neg Bool.false_ne_true]
    exact kind

end Definitions

/-- Named types are entered faithfully while the depth exceeds the number of
definitions that remain. -/
theorem named_expands {lookup : Lookup} (unambiguous : Unambiguous lookup.definitions walked) :
    ∀ depth, Expands lookup.definitions walked (named lookup depth) depth := by
  intro depth
  induction depth with
  | zero =>
    exact ⟨onward_named lookup 0, findType?_named lookup 0,
      fun _ _ _ _ _ enough => absurd enough (Nat.not_lt_zero _)⟩
  | succ depth ih =>
    refine ⟨onward_named lookup _, findType?_named lookup _, ?_⟩
    intro package name reached walk held enough h
    have plain : Atlas.primitive? { package, name } = none := unambiguous.plain reached nofun
    cases found : walk.atlas.view { package, name } with
    | some shown =>
      rw [named, h.claim_of_view rfl plain found]
      exact Step.refl h
    | none =>
      have claimed := h.claim_of_free plain found
      cases defined : lookup.definitions.find? package name with
      | none =>
        have asked : ∀ node, (Subject.type (.named package name)).kind? lookup.definitions node =
            some .unsupported := by
          intro node
          simp only [Subject.kind?, Definitions.kind?, Definitions.of?, defined, TypeExpr.kind?]
        have noMethods : (Subject.type (.named package name)).methods lookup.definitions = [] := by
          simp only [Subject.methods, Definitions.methods, Definitions.of?, defined,
            TypeExpr.required]
        rw [named, claimed, defined]
        exact h.resolve_free rfl plain found reached rfl asked rfl noMethods
      | some definition =>
        -- a held name is in the atlas, so this one is not held
        have new : { package, name } ∉ held := by
          intro mem
          obtain ⟨shown, there, -⟩ := (h.pending _ mem).started
          rw [found] at there
          cases there
        have fewer := lookup.definitions.remaining_cons_lt (Definitions.mem_names defined) new
        have result := define_step lookup unambiguous ih defined reached (by omega) h found
        have entered : named lookup (depth + 1) package name walk =
            ((walk.claim { package, name }).1.1, define lookup (named lookup depth)
              (walk.claim { package, name }).2 (walk.claim { package, name }).1.1
              { package, name } definition) := by
          rw [named, claimed, defined]
          rfl
        rw [entered]
        exact result

/-- Types added to the atlas one after the other. -/
def addTypes (lookup : Lookup) (exprs : List TypeExpr) (walk : Walk) : Walk :=
  exprs.foldl (fun walk expr => (addType lookup none expr walk).2) walk

theorem addType_step {lookup : Lookup} (unambiguous : Unambiguous lookup.definitions walked)
    (h : Settled lookup.definitions walked [] walk) {expr : TypeExpr} (mem : expr ∈ walked) :
    Step lookup.definitions walked [] walk (addType lookup none expr walk).2 := by
  have enough : lookup.definitions.remaining [] < depthBound lookup := by
    have bound := List.length_filter_le (fun name : Name => name ∉ []) lookup.definitions.names
    rw [Definitions.names, List.length_map] at bound
    exact Nat.lt_succ_of_le bound
  exact (guides_steps lookup unambiguous (named_expands unambiguous _)).type (.walked mem) walk []
    enough h

/-- Any number of types may be added, and each has its node afterwards. -/
theorem addTypes_step {lookup : Lookup} (unambiguous : Unambiguous lookup.definitions walked) :
    ∀ (exprs : List TypeExpr) (walk : Walk), (∀ expr ∈ exprs, expr ∈ walked) →
      Settled lookup.definitions walked [] walk →
      Step lookup.definitions walked [] walk (addTypes lookup exprs walk) ∧
        ∀ expr ∈ exprs, ∃ id, (addTypes lookup exprs walk).atlas.typeNode? expr = some id
  | [], walk, _, h => ⟨Step.refl h, fun _ mem => by cases mem⟩
  | first :: rest, walk, mem, h => by
    have here := addType_step unambiguous h (mem first List.mem_cons_self)
    obtain ⟨step, found⟩ := addTypes_step unambiguous rest (addType lookup none first walk).2
      (fun expr there => mem expr (List.mem_cons_of_mem _ there)) here.settled
    refine ⟨here.trans step, fun expr there => ?_⟩
    rcases List.mem_cons.1 there with rfl | there
    · exact ⟨_, step.grows.findType? here.settled.consistent (findType?_addType lookup _ walk)⟩
    · exact found expr there

/-! ## The whole graph -/

/-- Where nothing is held a reached subject that has a node is shown. -/
theorem Settled.shown_of_found (unambiguous : Unambiguous definitions walked)
    (h : Settled definitions walked [] walk) {subject : Subject}
    (reached : Reached definitions walked subject) {id : NodeId}
    (found : walk.atlas.findType? subject.name = some id) :
    Shown definitions walk.atlas subject := by
  obtain ⟨shown, view⟩ := h.consistent.view_of_findType? found
  cases plain : Atlas.primitive? subject.name with
  | none =>
    obtain ⟨other, also, named, shown⟩ :=
      h.shown subject.name reached.path plain List.not_mem_nil _ view
    exact shown.congr named (unambiguous.agrees also reached named)
  | some spelling =>
    -- only a registered primitive is named like one
    obtain ⟨kind, methods⟩ := h.primitives _ _ _ plain view
    have basic : ∃ name, subject = .type (.basic name) := by
      refine Classical.byContradiction fun noBasic => ?_
      rw [unambiguous.plain reached fun name eq => noBasic ⟨name, eq⟩] at plain
      cases plain
    obtain ⟨name, rfl⟩ := basic
    have registered : Primitive.canonical? name = some spelling := plain
    refine ⟨id, shown, view, ?_, ?_⟩
    · simp only at kind
      simp [Subject.kind?, Definitions.kind?, Definitions.of?, TypeExpr.kind?,
        Primitive.isRegistered, registered, kind]
    · simp only at methods
      rw [methods]
      exact lists_nil _

/-- The graph is faithful: after types have been walked into an empty atlas,
every reached subject has the node it should have, and no other type name is in
the atlas, primitives apart. -/
theorem faithful_addTypes (lookup : Lookup) (walked : List TypeExpr)
    (unambiguous : Unambiguous lookup.definitions walked) :
    (∀ subject, Reached lookup.definitions walked subject →
      Shown lookup.definitions (addTypes lookup walked { atlas := {} }).atlas subject) ∧
    ∀ name id, name.path = none → Atlas.primitive? name = none →
      (addTypes lookup walked { atlas := {} }).atlas.findType? name = some id →
      ∃ subject, Reached lookup.definitions walked subject ∧ subject.name = name := by
  obtain ⟨step, found⟩ := addTypes_step unambiguous walked { atlas := {} } (fun _ mem => mem)
    settled_empty
  constructor
  · intro subject reached
    induction reached with
    | @walked type mem =>
      obtain ⟨id, there⟩ := found type mem
      exact step.settled.shown_of_found unambiguous (.walked mem) there
    | @part subject type reached mem ih =>
      obtain ⟨-, node, -, kind, -⟩ := ih
      obtain ⟨id, there⟩ := Subject.parts_known kind type mem
      exact step.settled.shown_of_found unambiguous (.part reached mem) there
    | @method subject entry reached mem ih =>
      obtain ⟨-, node, -, -, lists⟩ := ih
      obtain ⟨id, there⟩ := lists.known entry mem
      exact step.settled.shown_of_found unambiguous (.method reached mem) there
  · intro name id path plain there
    obtain ⟨shown, view⟩ := step.settled.consistent.view_of_findType? there
    obtain ⟨subject, reached, named, -⟩ :=
      step.settled.shown name path plain List.not_mem_nil _ view
    exact ⟨subject, reached, named⟩

/-- A list type that refers to itself, with a method: walking a slice of it
shows the definition, its field and its method. -/
theorem faithful_addTypes_recursive :
    let self : TypeExpr := .named "p" "List"
    let length : MethodExpr := ⟨"Len", none, ⟨some (.pointer self), [], [.basic "int"], false⟩⟩
    let lookup : Lookup :=
      { definitions := ⟨[("p", {
          name := "List", methods := [length]
          underlying := .struct [⟨"next", false, "", .pointer self, none⟩] })]⟩
        comments := {} }
    Unambiguous lookup.definitions [.slice self] ∧
      Shown lookup.definitions (addTypes lookup [.slice self] { atlas := {} }).atlas (.type self) ∧
      Shown lookup.definitions (addTypes lookup [.slice self] { atlas := {} }).atlas
        (.method { package := "p", name := "List.Len" } length) := by
  intro self length lookup
  have unambiguous : Unambiguous lookup.definitions [.slice self] := by
    refine unambiguous_of_closed [.type (.slice self), .type self, .type (.pointer self),
      .method { package := "p", name := "List.Len" } length, .type (.basic "int")] ?_ ?_ ?_ ?_ ?_ ?_
    · simp
    · simp [Subject.parts, Definitions.parts, Definitions.of?, Definitions.find?, lookup, self,
        length, TypeExpr.parts, TypeExpr.isAliased, SignatureExpr.parts]
    · simp [Subject.methods, Definitions.methods, Definitions.of?, Definitions.find?, lookup, self,
        length, TypeExpr.required, methodName, TypeExpr.canonicalName]
    · decide
    · simp only [List.forall_mem_cons]
      refine ⟨fun _ => rfl, fun _ => rfl, fun _ => rfl, fun _ => rfl, ?_, List.forall_mem_nil _⟩
      exact fun noBasic => absurd rfl (noBasic "int")
    · simp only [List.forall_mem_cons]
      exact ⟨List.nodup_nil, List.nodup_singleton _, List.nodup_nil, List.nodup_nil,
        List.nodup_nil, List.forall_mem_nil _⟩
  obtain ⟨shown, -⟩ := faithful_addTypes lookup [.slice self] unambiguous
  have reached : Reached lookup.definitions [.slice self] (.type self) :=
    .part (.walked List.mem_cons_self) List.mem_cons_self
  have entry : ({ package := "p", name := "List.Len" }, length) ∈
      (Subject.type self).methods lookup.definitions := List.mem_cons_self
  exact ⟨unambiguous, shown _ reached, shown _ (.method reached entry)⟩

end Walk

end GoAtlas
