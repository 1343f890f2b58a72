import GoAtlas.Proofs.Walk.Onward

/-!
# Settled walks

While a walk describes a node it holds the node's name: until the parts are
walked and the methods are set the node is half built, although other nodes may
refer to it already. `Settled` says that every name of the atlas that is not held
shows the subject it stands for, and that a held name is busy or has its kind.
So a name is either free, or there is nothing left to do for it
(`Settled.claim`), and that is all the walk ever asks.

`Step` is what a part of the walk does as a whole: it keeps `Settled`, lets the
atlas grow and leaves no name busy. `Opened` is the state between claiming a free
name and finishing its node, where the name itself is the only one not to grow.
-/

namespace GoAtlas.Walk

variable {definitions : Definitions} {walked : List TypeExpr}
variable {subject : Subject}

/-- A name whose node is half built: it stands for a reached subject that is no
primitive, and it is busy or has its kind. -/
structure Held (definitions : Definitions) (walked : List TypeExpr) (walk : Walk) (name : Name) :
    Prop where
  path : name.path = none
  plain : Atlas.primitive? name = none
  subject : ∃ subject, Reached definitions walked subject ∧ subject.name = name ∧
    ∀ spelling, subject ≠ .type (.basic spelling)
  started : ∃ shown, walk.atlas.view name = some shown ∧
    (shown.2.kind.isUnknown = false ∨ name ∈ walk.busy)

/-- Every name but the held ones shows the subject it stands for. -/
structure Settled (definitions : Definitions) (walked : List TypeExpr) (held : List Name)
    (walk : Walk) : Prop where
  consistent : walk.atlas.Consistent
  primitives : walk.atlas.PrimitivesShown
  shown : ∀ name, name.path = none → Atlas.primitive? name = none → name ∉ held →
    ∀ shown, walk.atlas.view name = some shown →
      ∃ subject, Reached definitions walked subject ∧ subject.name = name ∧
        Shown definitions walk.atlas subject
  pending : ∀ name ∈ held, Held definitions walked walk name
  busy : ∀ name ∈ walk.busy, name ∈ held

theorem settled_empty : Settled definitions walked [] { atlas := {} } where
  consistent := Atlas.consistent_empty
  primitives _ _ _ _ found := by cases found
  shown _ _ _ _ _ found := by cases found
  pending _ mem := by cases mem
  busy _ mem := by cases mem

/-! ## Claiming a name -/

theorem isMarker_of_view {atlas : Atlas} {name : Name} {id : NodeId} {shown : Node}
    (found : atlas.view name = some (id, shown)) : atlas.isMarker id = shown.kind.isUnknown := by
  obtain ⟨-, node, hn, rfl⟩ := Atlas.view_eq_some.1 found
  rw [Atlas.isMarker, hn]
  simp [Node.isResolved, Node.bare]

namespace Settled

variable {held : List Name} {walk : Walk} {name : Name}
variable {shown : NodeId × Node}

variable (h : Settled definitions walked held walk)

include h

/-- A name of the atlas has its kind, or it is busy. -/
theorem described (path : name.path = none) (plain : Atlas.primitive? name = none)
    (found : walk.atlas.view name = some shown) :
    shown.2.kind.isUnknown = false ∨ name ∈ walk.busy := by
  by_cases mem : name ∈ held
  · obtain ⟨shown', found', started⟩ := (h.pending name mem).started
    rw [found] at found'
    cases found'
    exact started
  · obtain ⟨subject, -, rfl, id, node, found', kind, -⟩ := h.shown name path plain mem shown found
    rw [found] at found'
    cases found'
    exact .inl (Subject.kind?_known kind)

/-- Where a name is in the atlas there is nothing to do for it. -/
theorem claim_of_view (path : name.path = none) (plain : Atlas.primitive? name = none)
    (found : walk.atlas.view name = some shown) : walk.claim name = ((shown.1, false), walk) := by
  have done : (walk.atlas.isMarker shown.1 && !walk.busy.contains name) = false := by
    rw [isMarker_of_view found]
    rcases h.described path plain found with known | busy
    · rw [known]
      rfl
    · simp [busy]
  rw [claim, Atlas.typeNode_of_view found]
  simp only [done]

/-- A free name is given a marker, to be described. -/
theorem claim_of_free (plain : Atlas.primitive? name = none) (free : walk.atlas.view name = none) :
    walk.claim name = ((walk.atlas.nodeCount, true),
      { walk with atlas := walk.atlas.addNode name.slot (.marker name) }) := by
  have found := (Atlas.view_addNode h.consistent name name (.marker name)).trans (if_pos rfl)
  have idle : name ∉ walk.busy := by
    intro busy
    obtain ⟨shown, found, -⟩ := (h.pending name (h.busy name busy)).started
    rw [free] at found
    cases found
  rw [claim, Atlas.typeNode_of_free (h.consistent.findType?_eq_none free) plain]
  simp only [isMarker_of_view found]
  simp [Node.bare, Node.marker, Kind.bare, Kind.isUnknown, idle]

/-- Claiming a free name twice is claiming it once. -/
theorem claim_claim (plain : Atlas.primitive? name = none) (free : walk.atlas.view name = none) :
    (walk.claim name).2.claim name = walk.claim name := by
  have found := (Atlas.view_addNode h.consistent name name (.marker name)).trans (if_pos rfl)
  have claimed := h.claim_of_free plain free
  have idle := congrArg (fun result => result.1.2) claimed
  rw [claim, Atlas.typeNode_of_free (h.consistent.findType?_eq_none free) plain] at idle
  rw [claimed]
  simp only at idle
  rw [claim, Atlas.typeNode_of_view found]
  simp only [idle]

end Settled

/-! ## Steps and opened names -/

section

variable {before after : Atlas} {name : Name}
  (same : ∀ other, other.slot ≠ name.slot → after.view other = before.view other)

include same

/-- The node of a name that is no primitive may change. -/
theorem primitivesShown_of_view (plain : Atlas.primitive? name = none)
    (primitives : before.PrimitivesShown) : after.PrimitivesShown := by
  intro other spelling shown spells found
  rw [same] at found
  · exact primitives other spelling shown spells found
  · intro eq
    rw [Atlas.primitive?_of_slot eq, plain] at spells
    cases spells

/-- A free name may be given a node. -/
theorem grows_of_free (free : before.view name = none) : before.Grows after := by
  intro other shown found
  rw [same, found]
  intro eq
  rw [before.view_of_slot eq, free] at found
  cases found

end

/-- A part of the walk, seen from outside. -/
structure Step (definitions : Definitions) (walked : List TypeExpr) (held : List Name)
    (before after : Walk) : Prop where
  settled : Settled definitions walked held after
  grows : before.atlas.Grows after.atlas
  busy : after.busy = before.busy

/-- A name that was free before has been claimed, and its node is being built. -/
structure Opened (definitions : Definitions) (walked : List TypeExpr) (held : List Name)
    (name : Name) (before after : Walk) : Prop where
  settled : Settled definitions walked (name :: held) after
  grows : before.atlas.Grows after.atlas
  free : before.atlas.view name = none

variable {held : List Name} {name : Name} {before walk after : Walk}

theorem Step.refl (h : Settled definitions walked held walk) :
    Step definitions walked held walk walk :=
  ⟨h, Atlas.Grows.refl _, rfl⟩

theorem Step.trans (h : Step definitions walked held before walk)
    (k : Step definitions walked held walk after) : Step definitions walked held before after :=
  ⟨k.settled, h.grows.trans k.grows, k.busy.trans h.busy⟩

/-- A free name that a reached subject stands for may be claimed. -/
theorem Settled.start (h : Settled definitions walked held walk) (path : name.path = none)
    (plain : Atlas.primitive? name = none) (reached : Reached definitions walked subject)
    (named : subject.name = name) (noBasic : ∀ spelling, subject ≠ .type (.basic spelling))
    (free : walk.atlas.view name = none) :
    ∃ id claimed, walk.claim name = ((id, true), claimed) ∧
      Opened definitions walked held name walk (claimed.start name) ∧
      (claimed.start name).busy = name :: walk.busy ∧
      (claimed.start name).atlas.view name = some (id, .marker name) := by
  have view := fun other => Atlas.view_addNode h.consistent name other (.marker name)
  have elsewhere := fun other ne => (view other).trans (if_neg ne)
  have grows : walk.atlas.Grows (walk.atlas.addNode name.slot (.marker name)) :=
    grows_of_free elsewhere free
  have consistent := h.consistent.typeNode name
  rw [Atlas.typeNode_of_free (h.consistent.findType?_eq_none free) plain] at consistent
  refine ⟨_, _, h.claim_of_free plain free, ⟨⟨consistent,
    primitivesShown_of_view elsewhere plain h.primitives, ?_, ?_, ?_⟩, grows, free⟩, rfl,
    (view name).trans (if_pos rfl)⟩
  · intro other otherPath otherPlain mem shown found
    have ne : other ≠ name := fun eq => mem (eq ▸ List.mem_cons_self)
    simp only [Walk.start] at found
    rw [view, if_neg fun same => ne (Name.eq_of_slot otherPath path same)] at found
    obtain ⟨subject, reached, named, shown⟩ := h.shown other otherPath otherPlain
      (fun mem' => mem (List.mem_cons_of_mem _ mem')) shown found
    exact ⟨subject, reached, named, shown.grows h.consistent grows⟩
  · intro other mem
    rcases List.mem_cons.1 mem with rfl | mem
    · exact ⟨path, plain, ⟨subject, reached, named, noBasic⟩, _, (view _).trans (if_pos rfl),
        .inr List.mem_cons_self⟩
    · obtain ⟨otherPath, otherPlain, stands, shown, found, started⟩ := h.pending other mem
      exact ⟨otherPath, otherPlain, stands, shown, grows _ _ found,
        started.imp_right (List.mem_cons_of_mem _)⟩
  · intro other mem
    rcases List.mem_cons.1 mem with rfl | mem
    · exact List.mem_cons_self
    · exact List.mem_cons_of_mem _ (h.busy other mem)

namespace Opened

variable (h : Opened definitions walked held name before walk)

include h

/-- The walk may go on while a name is open. -/
theorem step (k : Step definitions walked (name :: held) walk after) :
    Opened definitions walked held name before after :=
  ⟨k.settled, h.grows.trans k.grows, h.free⟩

/-- The node of an open name may be rewritten into one that has a kind; the name
need not be busy any more. -/
theorem rewrite {id : NodeId} {shown : Node} (found : walk.atlas.view name = some (id, shown))
    {f g : Node → Node} (rewrites : ∀ node, (f node).bare = g node.bare)
    (known : (g shown).kind.isUnknown = false)
    (consistent : (walk.atlas.updateNode id f).Consistent) {busy : List Name}
    (fewer : ∀ other ∈ busy, other ∈ walk.busy)
    (others : ∀ other ∈ walk.busy, other ≠ name → other ∈ busy) :
    Opened definitions walked held name before ⟨walk.atlas.updateNode id f, busy⟩ ∧
      (walk.atlas.updateNode id f).view name = some (id, g shown) := by
  obtain ⟨path, plain, stands, -⟩ := h.settled.pending name List.mem_cons_self
  have view := Atlas.view_updateNode h.settled.consistent plain found rewrites
  have here := (view name).trans (if_pos rfl)
  have elsewhere : ∀ other, other.path = none → other ≠ name →
      (walk.atlas.updateNode id f).view other = walk.atlas.view other := by
    intro other otherPath ne
    rw [view, if_neg fun same => ne (Name.eq_of_slot otherPath path same)]
  have primitives := primitivesShown_of_view (fun other ne => (view other).trans (if_neg ne)) plain
    h.settled.primitives
  refine ⟨⟨⟨consistent, primitives, ?_, ?_, ?_⟩, ?_, h.free⟩, here⟩
  · intro other otherPath otherPlain mem shown found
    have ne : other ≠ name := fun eq => mem (eq ▸ List.mem_cons_self)
    simp only [elsewhere other otherPath ne] at found
    obtain ⟨subject, reached, rfl, id, node, view, kind, lists⟩ :=
      h.settled.shown other otherPath otherPlain mem shown found
    exact ⟨subject, reached, rfl, id, node, (elsewhere _ otherPath ne).trans view, kind,
      lists.known, lists.exact⟩
  · intro other mem
    by_cases eq : other = name
    · subst eq
      exact ⟨path, plain, stands, _, here, .inl known⟩
    · obtain ⟨otherPath, otherPlain, stands, shown, view, started⟩ := h.settled.pending other mem
      exact ⟨otherPath, otherPlain, stands, shown, (elsewhere other otherPath eq).trans view,
        started.imp_right fun mem => others other mem eq⟩
  · intro other mem
    exact h.settled.busy other (fewer other mem)
  · intro other shown known
    have ne : other.slot ≠ name.slot := by
      intro same
      rw [before.atlas.view_of_slot same, h.free] at known
      cases known
    exact (view other).trans ((if_neg ne).trans (h.grows other shown known))

/-- A node that shows the subject of its name is finished. -/
theorem close (settled : Settled definitions walked held before) (busy : walk.busy = before.busy)
    {subject : Subject} (reached : Reached definitions walked subject) (named : subject.name = name)
    (shown : Shown definitions walk.atlas subject) : Step definitions walked held before walk := by
  have idle : name ∉ walk.busy := by
    intro mem
    obtain ⟨shown, found, -⟩ := (settled.pending name (settled.busy name (busy ▸ mem))).started
    rw [h.free] at found
    cases found
  refine ⟨⟨h.settled.consistent, h.settled.primitives, ?_, ?_, ?_⟩, h.grows, busy⟩
  · intro other path plain mem shown' found
    by_cases eq : other = name
    · exact ⟨subject, reached, named.trans eq.symm, shown⟩
    · refine h.settled.shown other path plain ?_ shown' found
      exact fun mem' => (List.mem_cons.1 mem').elim eq mem
  · intro other mem
    exact h.settled.pending other (List.mem_cons_of_mem _ mem)
  · intro other mem
    rcases List.mem_cons.1 (h.settled.busy other mem) with rfl | held
    · exact absurd mem idle
    · exact held

/-- A marker that is given its kind, with the name not busy any more. -/
theorem finish {id : NodeId} {shown : Node} (found : walk.atlas.view name = some (id, shown))
    (marker : shown.kind.isUnknown = true) (busy : walk.busy = name :: before.busy) (kind : Kind)
    (known : kind.isUnknown = false) :
    Opened definitions walked held name before (walk.finish id name kind) ∧
      (walk.finish id name kind).busy = before.busy ∧
      (walk.finish id name kind).atlas.view name = some (id, { shown with kind := kind.bare }) := by
  have consistent := h.settled.consistent.resolve id kind
  have released : walk.busy.erase name = before.busy := by
    rw [busy, List.erase_cons_head]
  rw [Atlas.resolve, isMarker_of_view found, if_pos marker] at consistent
  obtain ⟨opened, view⟩ := @rewrite _ _ held name before walk h id shown found
    (fun node => { node with kind }) (fun node => { node with kind := kind.bare })
    (fun _ => rfl) (by simpa using known) consistent (walk.busy.erase name)
    (fun other mem => List.mem_of_mem_erase mem)
    (fun other mem ne => (List.mem_erase_of_ne ne).2 mem)
  have same : walk.finish id name kind =
      ⟨walk.atlas.updateNode id fun node => { node with kind }, walk.busy.erase name⟩ := by
    rw [Walk.finish, Atlas.resolve, isMarker_of_view found, if_pos marker]
  rw [same]
  exact ⟨opened, released, view⟩

/-- A node without methods that is given its methods. -/
theorem setMethods {id : NodeId} {shown : Node} (found : walk.atlas.view name = some (id, shown))
    (known : shown.kind.isUnknown = false) (none : shown.methods = ∅) (methods : Table NodeId) :
    Opened definitions walked held name before (walk.setMethods id methods) ∧
      (walk.setMethods id methods).busy = walk.busy ∧
      (walk.setMethods id methods).atlas.view name = some (id, { shown with methods }) := by
  have consistent := consistent_setMethods h.settled.consistent id methods
  unfold Walk.setMethods at consistent ⊢
  split
  · next empty =>
    have same : methods = ∅ := methods.isEmpty_iff.1 empty
    subst same
    rw [← none]
    exact ⟨h, rfl, found⟩
  · next some =>
    rw [if_neg some] at consistent
    obtain ⟨opened, view⟩ := @rewrite _ _ held name before walk h id shown found
      (fun node => { node with methods }) (fun node => { node with methods })
      (fun _ => rfl) known consistent walk.busy (fun _ mem => mem) (fun _ mem _ => mem)
    exact ⟨opened, rfl, view⟩

end Opened

/-! ## Describing a node -/

/-- The parts of a node have been walked, and the kind and the methods found for
it are what they should be. -/
structure Described (definitions : Definitions) (walked : List TypeExpr) (held : List Name)
    (kindOf : (TypeExpr → Option NodeId) → Option Kind) (methods : List (Name × MethodExpr))
    (before : Walk) (result : (Kind × Table NodeId) × Walk) : Prop where
  step : Step definitions walked held before result.2
  kind : kindOf result.2.atlas.typeNode? = some result.1.1.bare
  lists : Lists result.2.atlas methods result.1.2

theorem findType?_finish (walk : Walk) (id : NodeId) (name : Name) (kind : Kind) :
    (walk.finish id name kind).atlas.findType? = walk.atlas.findType? := by
  unfold Walk.finish Atlas.resolve
  split <;> rfl

theorem findType?_setMethods (walk : Walk) (id : NodeId) (methods : Table NodeId) :
    (walk.setMethods id methods).atlas.findType? = walk.atlas.findType? := by
  unfold Walk.setMethods
  split <;> rfl

theorem typeNode?_eq {before after : Atlas} (same : after.findType? = before.findType?) :
    after.typeNode? = before.typeNode? := by
  funext type
  exact congrFun same type.canonicalName

theorem lists_eq {before after : Atlas} (same : after.findType? = before.findType?)
    {methods : List (Name × MethodExpr)} {table : Table NodeId} (h : Lists before methods table) :
    Lists after methods table :=
  ⟨same ▸ h.known, same ▸ h.exact⟩

variable {kindOf : (TypeExpr → Option NodeId) → Option Kind} {methods : List (Name × MethodExpr)}
  {describe : Walk → (Kind × Table NodeId) × Walk}

variable (h : Settled definitions walked held walk)

include h

/-- Where a name is in the atlas its node is not described again. -/
theorem node_of_view (path : name.path = none) (plain : Atlas.primitive? name = none)
    {shown : NodeId × Node} (found : walk.atlas.view name = some shown) :
    walk.node name describe = (shown.1, walk) := by
  rw [node, h.claim_of_view path plain found]
  rfl

/-- The node of a free name is described, and stays open for more methods. -/
theorem node_of_free (path : name.path = none) (plain : Atlas.primitive? name = none)
    {subject : Subject} (reached : Reached definitions walked subject) (named : subject.name = name)
    (noBasic : ∀ spelling, subject ≠ .type (.basic spelling)) (free : walk.atlas.view name = none)
    (known : ∀ node kind, kindOf node = some kind → kind.isUnknown = false)
    (describes : ∀ walk, Settled definitions walked (name :: held) walk →
      Described definitions walked (name :: held) kindOf methods walk (describe walk)) :
    ∃ shown, Opened definitions walked held name walk (walk.node name describe).2 ∧
      (walk.node name describe).2.busy = walk.busy ∧
      (walk.node name describe).2.atlas.view name = some ((walk.node name describe).1, shown) ∧
      kindOf (walk.node name describe).2.atlas.typeNode? = some shown.kind ∧
      Lists (walk.node name describe).2.atlas methods shown.methods := by
  obtain ⟨id, claimed, fresh, opened, busy, marked⟩ :=
    h.start path plain reached named noBasic free
  obtain ⟨step, kindFound, lists⟩ := describes _ opened.settled
  have built : walk.node name describe = (id,
      ((describe (claimed.start name)).2.finish id name
        (describe (claimed.start name)).1.1).setMethods id
          (describe (claimed.start name)).1.2) := by
    rw [node, fresh]
    exact if_pos rfl
  rw [built]
  generalize describe (claimed.start name) = result at step kindFound lists
  obtain ⟨⟨kind, table⟩, after⟩ := result
  have kindKnown : kind.isUnknown = false := by
    rw [← Kind.isUnknown_bare]
    exact known _ _ kindFound
  obtain ⟨finished, released, resolved⟩ := (opened.step step).finish (step.grows name _ marked) rfl
    (step.busy.trans busy) kind kindKnown
  obtain ⟨done, idle, shown⟩ := finished.setMethods resolved (by simpa using kindKnown) rfl table
  have same := (findType?_setMethods _ id table).trans (findType?_finish after id name kind)
  refine ⟨_, done, idle.trans released, shown, ?_, lists_eq same lists⟩
  rw [typeNode?_eq same]
  exact kindFound

/-- The node of a name is found, or described as its subject asks. -/
theorem node_step (path : name.path = none) (plain : Atlas.primitive? name = none)
    (reached : Reached definitions walked subject) (named : subject.name = name)
    (noBasic : ∀ spelling, subject ≠ .type (.basic spelling))
    (describes : ∀ walk, Settled definitions walked (name :: held) walk →
      Described definitions walked (name :: held) (fun node => subject.kind? definitions node)
        (subject.methods definitions) walk (describe walk)) :
    Step definitions walked held walk (walk.node name describe).2 := by
  subst named
  cases found : walk.atlas.view subject.name with
  | some shown =>
    rw [node_of_view h path plain found]
    exact Step.refl h
  | none =>
    obtain ⟨shown, opened, busy, view, kind, lists⟩ := node_of_free h path plain reached rfl
      noBasic found (fun _ _ => Subject.kind?_known) describes
    exact opened.close h busy reached rfl ⟨_, shown, view, kind, lists⟩

/-- A change that does not show is a step. -/
theorem Settled.step_of_view (consistent : after.atlas.Consistent)
    (same : ∀ name, after.atlas.view name = walk.atlas.view name) (busy : after.busy = walk.busy) :
    Step definitions walked held walk after := by
  have grows : walk.atlas.Grows after.atlas := fun name _ found => (same name).trans found
  refine ⟨⟨consistent, ?_, ?_, ?_, ?_⟩, grows, busy⟩
  · intro name spelling shown spells found
    exact h.primitives name spelling shown spells ((same name).symm.trans found)
  · intro name path plain mem shown found
    obtain ⟨subject, reached, named, shown⟩ :=
      h.shown name path plain mem shown ((same name).symm.trans found)
    exact ⟨subject, reached, named, shown.grows h.consistent grows⟩
  · intro name mem
    obtain ⟨path, plain, stands, shown, found, started⟩ := h.pending name mem
    exact ⟨path, plain, stands, shown, (same name).trans found, busy ▸ started⟩
  · intro name mem
    exact h.busy name (busy ▸ mem)

/-- A free name may be given a node that shows its subject at once. -/
theorem Settled.step_of_free (path : name.path = none) (plain : Atlas.primitive? name = none)
    (free : walk.atlas.view name = none) (consistent : after.atlas.Consistent)
    {made : NodeId × Node} (view : ∀ other, after.atlas.view other =
      if other.slot = name.slot then some made else walk.atlas.view other)
    (busy : after.busy = walk.busy) (reached : Reached definitions walked subject)
    (named : subject.name = name) (shown : Shown definitions after.atlas subject) :
    Step definitions walked held walk after := by
  have elsewhere := fun other ne => (view other).trans (if_neg ne)
  have grows := grows_of_free elsewhere free
  refine ⟨⟨consistent, primitivesShown_of_view elsewhere plain h.primitives, ?_, ?_, ?_⟩, grows,
    busy⟩
  · intro other otherPath otherPlain mem found there
    by_cases eq : other = name
    · exact ⟨subject, reached, named.trans eq.symm, shown⟩
    · rw [view, if_neg fun same => eq (Name.eq_of_slot otherPath path same)] at there
      obtain ⟨subject, reached, named, shown⟩ := h.shown other otherPath otherPlain mem found there
      exact ⟨subject, reached, named, shown.grows h.consistent grows⟩
  · intro other mem
    obtain ⟨otherPath, otherPlain, stands, shown, found, started⟩ := h.pending other mem
    exact ⟨otherPath, otherPlain, stands, shown, grows _ _ found, busy ▸ started⟩
  · intro other mem
    exact h.busy other (busy ▸ mem)

/-- A free name may be resolved at once to a kind that its subject asks for,
where the subject has no methods. -/
theorem Settled.resolve_free (path : name.path = none) (plain : Atlas.primitive? name = none)
    (free : walk.atlas.view name = none) (reached : Reached definitions walked subject)
    (named : subject.name = name) {kind : Kind}
    (asked : ∀ node, subject.kind? definitions node = some kind) (bare : kind.bare = kind)
    (noMethods : subject.methods definitions = []) :
    Step definitions walked held walk
      ⟨(walk.atlas.addNode name.slot (.marker name)).resolve walk.atlas.nodeCount kind,
        walk.busy⟩ := by
  subst named
  have consistent : (walk.atlas.addNode subject.name.slot (.marker subject.name)).Consistent := by
    have made := h.consistent.typeNode subject.name
    rwa [Atlas.typeNode_of_free (h.consistent.findType?_eq_none free) plain] at made
  have added := fun other =>
    Atlas.view_addNode h.consistent subject.name other (.marker subject.name)
  have marked := (added subject.name).trans (if_pos rfl)
  have marker : (Node.marker subject.name).bare.kind.isUnknown = true := rfl
  have resolved := consistent.resolve walk.atlas.nodeCount kind
  rw [Atlas.resolve, isMarker_of_view marked, if_pos marker] at resolved ⊢
  have view : ∀ other, ((walk.atlas.addNode subject.name.slot (.marker subject.name)).updateNode
      walk.atlas.nodeCount fun node => { node with kind }).view other =
        if other.slot = subject.name.slot then
          some (walk.atlas.nodeCount, { Node.marker subject.name with kind })
        else walk.atlas.view other := by
    intro other
    rw [@Atlas.view_updateNode _ consistent subject.name _ _ plain marked
      (fun node => { node with kind }) (fun node => { node with kind := kind.bare })
      (fun _ => rfl) other, added, bare]
    split <;> rfl
  have here := (view subject.name).trans (if_pos rfl)
  refine h.step_of_free path plain free resolved view rfl reached rfl ⟨_, _, here, asked _, ?_⟩
  rw [noMethods]
  exact ⟨fun _ mem => (List.not_mem_nil mem).elim, fun name id => by simp [Node.marker]⟩

/-- Asking for a primitive is a step. -/
theorem Settled.step_primitive {spelling : String}
    (spells : Atlas.primitive? name = some spelling) :
    Step definitions walked held walk { walk with atlas := (walk.atlas.typeNode name).2 } := by
  obtain ⟨-, primitives, grows, others⟩ :=
    Atlas.typeNode_primitive h.consistent h.primitives spells
  refine ⟨⟨h.consistent.typeNode name, primitives, ?_, ?_, h.busy⟩, grows, rfl⟩
  · intro other path plain mem shown there
    obtain ⟨subject, reached, named, shown⟩ :=
      h.shown other path plain mem shown ((others other plain).symm.trans there)
    exact ⟨subject, reached, named, shown.grows h.consistent grows⟩
  · intro other mem
    obtain ⟨path, plain, stands, shown, there, started⟩ := h.pending other mem
    exact ⟨path, plain, stands, shown, grows _ _ there, started⟩

/-- The comments of a method do not show. -/
theorem Settled.setMethodComments (id : NodeId) (comments : List String) :
    Step definitions walked held walk (walk.setMethodComments id comments) := by
  refine h.step_of_view (consistent_setMethodComments h.consistent id comments) (fun name => ?_) rfl
  refine Atlas.view_updateNode_comments _ _ (fun node => ?_) name
  split
  · next signature func => simp [Node.bare, Kind.bare, Signature.bare, func]
  · rfl

end GoAtlas.Walk
