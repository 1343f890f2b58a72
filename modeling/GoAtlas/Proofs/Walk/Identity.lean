import GoAtlas.Proofs.Walk.Reserved

/-!
# Types are identified by their nodes

A walk asks for the node of a name and makes one when there is none, so a type that is
walked again gets the node it has. Nothing that happens to an atlas takes a name away from
its node, and no node has two names, apart from the spellings of a primitive. So two types
have the same node exactly if they have the same name or spell one primitive, whenever in
a run each of them was walked (`same_node_iff`).

A type is walked between the visits of a walker or in the middle of one, where names are
busy and markers still lack their kinds. `Moment` stands for either, and `Event` for all
that can happen in between, the single writes of an unfinished visit among them.
-/

namespace GoAtlas

/-! ## Names and slots -/

/-- The names lead to one node wherever both are known: they are the same name, or they
spell the same primitive. -/
def Name.Identified (name other : Name) : Prop :=
  name = other ∨ ∃ primitive,
    Atlas.primitive? name = some primitive ∧ Atlas.primitive? other = some primitive

theorem Slot.canonical_eq_iff {slot other : Slot} :
    slot.canonical = other.canonical ↔ slot = other ∨ ∃ primitive,
      slot.primitive? = some primitive ∧ other.primitive? = some primitive := by
  constructor
  · intro same
    have spelled : slot.primitive? = other.primitive? := by
      rw [← slot.primitive?_canonical, same, other.primitive?_canonical]
    cases primitive : other.primitive? with
    | some spelling => exact .inr ⟨spelling, spelled.trans primitive, rfl⟩
    | none =>
      rw [canonical_eq_self primitive, canonical_eq_self (spelled.trans primitive)] at same
      exact .inl same
  · rintro (rfl | ⟨primitive, here, there⟩)
    · rfl
    · rw [canonical_of_primitive here, canonical_of_primitive there]

theorem TypeExpr.identified_iff {type other : TypeExpr} :
    type.canonicalName.Identified other.canonicalName ↔
      type.canonicalName.slot.canonical = other.canonicalName.slot.canonical := by
  rw [Slot.canonical_eq_iff]
  constructor
  · rintro (same | spelled)
    · exact .inl (congrArg Name.slot same)
    · exact .inr spelled
  · rintro (same | spelled)
    · exact .inl (Name.eq_of_slot type.path_canonicalName other.path_canonicalName same)
    · exact .inr spelled

/-- In a consistent atlas two names lead to one node exactly if they are identified. -/
theorem Atlas.Consistent.target_eq_iff {atlas : Atlas} (h : atlas.Consistent) {slot other : Slot}
    {id id' : NodeId} (leads : atlas.target? slot = some id)
    (leads' : atlas.target? other = some id') : id = id' ↔ slot.canonical = other.canonical := by
  constructor
  · rintro rfl
    exact h.apart slot other id leads leads'
  · intro same
    have first := h.synonyms slot id leads
    have second := h.synonyms other id' leads'
    rw [same, second] at first
    exact (Option.some.inj first).symm

namespace Atlas

/-- Names lead where they led, and what was consistent is. -/
structure Follows (before after : Atlas) : Prop where
  bound : ∀ slot id, before.target? slot = some id → after.target? slot = some id
  consistent : before.Consistent → after.Consistent

theorem Follows.refl (atlas : Atlas) : atlas.Follows atlas :=
  ⟨fun _ _ leads => leads, id⟩

theorem Follows.trans {before between after : Atlas} (h : before.Follows between)
    (h' : between.Follows after) : before.Follows after :=
  ⟨fun slot id leads => h'.bound slot id (h.bound slot id leads),
    fun start => h'.consistent (h.consistent start)⟩

end Atlas

/-! ## Moments and events -/

/-- The circumstances in which a type is walked: what is looked up, how many more
definitions may be entered, and which names are busy. -/
structure Moment where
  lookup : Lookup
  depth : Nat
  busy : List Name

namespace Moment

/-- A type walked at the moment. -/
def walk (moment : Moment) (useName : Option Name) (type : TypeExpr) (atlas : Atlas) :
    NodeId × Walk :=
  Walk.type moment.lookup (Walk.named moment.lookup moment.depth) useName type
    { atlas, busy := moment.busy }

/-- The moment at which a visit begins; every later one is inside of it. -/
def outset (lookup : Lookup) : Moment :=
  { lookup, depth := Walk.depthBound lookup, busy := [] }

theorem follows_walk (moment : Moment) (useName : Option Name) (type : TypeExpr) (atlas : Atlas) :
    atlas.Follows (moment.walk useName type atlas).2.atlas := by
  have goes := Walk.carries_consistent.type moment.lookup
    (Walk.carries_consistent.named moment.lookup moment.depth) useName type
    { atlas, busy := moment.busy }
  exact ⟨goes.1.bound, goes.2⟩

end Moment

/-- Something that happens to an atlas in a run: it is written by a call or by a whole
visit, or in the middle of a visit a type is walked, a node is given its methods, or the
comment of a method is written. -/
inductive Event where
  | writing (write : Writing)
  | walk (moment : Moment) (useName : Option Name) (type : TypeExpr)
  | methods (id : NodeId) (table : Table NodeId)
  | comment (id : NodeId) (lines : List String)

namespace Event

/-- The atlas after an event. -/
def run (atlas : Atlas) : Event → Atlas
  | .writing write => write.run atlas
  | .walk moment useName type => (moment.walk useName type atlas).2.atlas
  | .methods id table => (Walk.setMethods { atlas } id table).atlas
  | .comment id lines => (Walk.setMethodComments { atlas } id lines).atlas

/-- The atlas after a number of events. -/
def runAll (atlas : Atlas) (events : List Event) : Atlas :=
  events.foldl run atlas

end Event

namespace Walk

theorem follows_declare (lookup : Lookup) (sort : DeclarationSort) (name : Name) (type : TypeExpr)
    (atlas : Atlas) : atlas.Follows (declare lookup sort name type { atlas }).2.atlas := by
  have walked := (Moment.outset lookup).follows_walk none type (atlas.declarationNode sort name).2
  refine ⟨(Visit.lasts lookup { atlas } (.declare sort name type)).bound, fun start => ?_⟩
  exact (walked.consistent (start.declarationNode sort name)).declare _ _

theorem follows_attachDoc (lookup : Lookup) (id : NodeId) (pos : Option Position) (atlas : Atlas) :
    atlas.Follows (attachDoc lookup id pos { atlas }).atlas :=
  ⟨(Visit.lasts lookup { atlas } (.attachDoc id pos)).bound,
    fun start => consistent_attachDoc lookup start id pos⟩

end Walk

theorem Writing.follows (atlas : Atlas) (writing : Writing) :
    atlas.Follows (writing.run atlas) := by
  cases writing with
  | call operation => exact ⟨(operation.lasts atlas).bound, fun start => start.run operation⟩
  | walk lookup visit =>
    cases visit with
    | type useName type => exact (Moment.outset lookup).follows_walk useName type atlas
    | declare sort name type => exact Walk.follows_declare lookup sort name type atlas
    | attachDoc id pos => exact Walk.follows_attachDoc lookup id pos atlas

namespace Event

theorem follows (atlas : Atlas) (event : Event) : atlas.Follows (event.run atlas) := by
  cases event with
  | writing write => exact write.follows atlas
  | walk moment useName type => exact moment.follows_walk useName type atlas
  | methods id table =>
    refine ⟨fun slot target leads => ?_, fun start => Walk.consistent_setMethods start id table⟩
    rw [run, Walk.setMethods]
    split <;> exact leads
  | comment id lines =>
    exact ⟨fun _ _ leads => leads, fun start => Walk.consistent_setMethodComments start id lines⟩

theorem follows_runAll (atlas : Atlas) (events : List Event) :
    atlas.Follows (runAll atlas events) := by
  induction events generalizing atlas with
  | nil => exact .refl atlas
  | cons event rest ih => exact (event.follows atlas).trans (ih _)

/-- Whatever happened to an atlas before, between and after: a type that is walked gets the
node that its name leads to, its name leads there from then on, and two types that are
walked one after the other get the same node exactly if their names are the same or spell
one primitive. -/
theorem same_node_iff (past between later : List Event) (first second : Moment)
    (type other : TypeExpr) :
    let one := first.walk none type (runAll {} past)
    let two := second.walk none other (runAll one.2.atlas between)
    let atlas := runAll two.2.atlas later
    one.2.atlas.findType? type.canonicalName = some one.1 ∧
      two.2.atlas.findType? other.canonicalName = some two.1 ∧
      atlas.findType? type.canonicalName = some one.1 ∧
      atlas.findType? other.canonicalName = some two.1 ∧
      (one.1 = two.1 ↔ type.canonicalName.Identified other.canonicalName) := by
  intro one two atlas
  have here : one.2.atlas.target? type.canonicalName.slot = some one.1 :=
    Walk.findType?_type first.lookup first.depth type _
  have there : two.2.atlas.target? other.canonicalName.slot = some two.1 :=
    Walk.findType?_type second.lookup second.depth other _
  have start : Atlas.Follows {} one.2.atlas :=
    (follows_runAll {} past).trans (first.follows_walk none type _)
  have onward : one.2.atlas.Follows two.2.atlas :=
    (follows_runAll one.2.atlas between).trans (second.follows_walk none other _)
  have last : two.2.atlas.Follows atlas := follows_runAll two.2.atlas later
  have consistent := (start.trans onward).consistent Atlas.consistent_empty
  have still := onward.bound _ _ here
  refine ⟨here, there, last.bound _ _ still, last.bound _ _ there, ?_⟩
  rw [consistent.target_eq_iff still there, TypeExpr.identified_iff]

end Event

end GoAtlas
