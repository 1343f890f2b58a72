import GoAtlas.Proofs.Walk.Orderly

/-!
# No marker is left behind

A tour is what one walker does, visit by visit: a type is walked, a declaration is
made, comments are attached. Tours follow each other on one atlas, each with
definitions and comments of its own. Whatever the definitions refer to, after
every visit no name is busy, no node is a marker, no declaration lacks its type and
every node that is referred to is there (`finished_after_visits`). And methods are
functions, as long as no type the tours meet is named like a method they meet.
-/

namespace GoAtlas

/-! ## Tours -/

/-- Something a walker is asked to do. -/
inductive Visit where
  | type (useName : Option Name) (expr : TypeExpr)
  | declare (sort : DeclarationSort) (name : Name) (expr : TypeExpr)
  | attachDoc (id : NodeId) (pos : Option Position)

namespace Visit

/-- The walk after a visit. -/
def run (lookup : Lookup) (walk : Walk) : Visit → Walk
  | .type useName expr => (walk.addType lookup useName expr).2
  | .declare sort name expr => (walk.declare lookup sort name expr).2
  | .attachDoc id pos => walk.attachDoc lookup id pos

/-- The type that is visited. -/
def topic? : Visit → Option Topic
  | .type useName expr => some (.walked useName expr)
  | .declare _ _ expr => some (.ofType expr)
  | .attachDoc _ _ => none

end Visit

/-- What one walker is asked to do, with what it looks up. -/
structure Tour where
  lookup : Lookup
  visits : List Visit

namespace Tour

/-- The walk after a tour. It starts with no name busy. -/
def run (tour : Tour) (atlas : Atlas) : Walk :=
  tour.visits.foldl (Visit.run tour.lookup) { atlas }

/-- The atlas after a number of tours. -/
def runAll (tours : List Tour) (atlas : Atlas) : Atlas :=
  tours.foldl (fun atlas tour => (tour.run atlas).atlas) atlas

/-- The topics a tour meets: what it visits, and what that leads to. -/
inductive Meets (tour : Tour) : Topic → Prop
  | visit {visit : Visit} {topic : Topic} : visit ∈ tour.visits → visit.topic? = some topic →
      Meets tour topic
  | next {topic other : Topic} : Meets tour topic → other ∈ topic.next tour.lookup.definitions →
      Meets tour other

/-- The topics that some of the tours meet. -/
def Met (tours : List Tour) (topic : Topic) : Prop :=
  ∃ tour ∈ tours, tour.Meets topic

/-- Topics that are visited, closed under what they lead to, hold all that is met. -/
theorem Meets.mem_of_closed {tour : Tour} {topics : List Topic}
    (visited : ∀ visit ∈ tour.visits, ∀ topic ∈ visit.topic?, topic ∈ topics)
    (closed : ∀ topic ∈ topics, ∀ other ∈ topic.next tour.lookup.definitions, other ∈ topics)
    {topic : Topic} (h : tour.Meets topic) : topic ∈ topics := by
  induction h with
  | visit mem eq => exact visited _ mem _ eq
  | next _ mem ih => exact closed _ ih _ mem

/-- The methods that are met have the identities of methods. -/
theorem Meets.plain {tour : Tour} {identity : Name} {method : MethodExpr}
    (h : tour.Meets (.method identity method)) : Atlas.primitive? identity = none := by
  cases h with
  | @visit visit _ _ eq => cases visit <;> cases eq
  | next _ mem => exact Topic.plain_of_next mem

end Tour

namespace Atlas

/-- An atlas in which nothing is left to do. -/
structure Finished (atlas : Atlas) : Prop where
  /-- No node is a marker. -/
  known : ∀ id node, atlas.node? id = some node → node.kind ≠ .unknown
  /-- Every declaration has its type. -/
  declared : ∀ id node, atlas.node? id = some node → node.kind ≠ .declaration none
  /-- What a kind refers to is there. -/
  bounded : ∀ id node, atlas.node? id = some node → ∀ ref ∈ node.kind.refs, ref < atlas.nodeCount
  /-- The methods of a node are there. -/
  methods : ∀ id node, atlas.node? id = some node →
    ∀ key ref, node.methods.get? key = some ref → ref < atlas.nodeCount

/-- All methods are functions. -/
def MethodsAreFunctions (atlas : Atlas) : Prop :=
  ∀ id node, atlas.node? id = some node → ∀ key ref, node.methods.get? key = some ref →
    ∃ method signature, atlas.node? ref = some method ∧ method.kind = .func signature

end Atlas

namespace Walk

variable {met : Topic → Prop} {walk : Walk}

theorem tidy_empty (plain : ∀ identity method, met (.method identity method) →
      Atlas.primitive? identity = none) : Tidy met none { atlas := {} } where
  plain := plain
  consistent := Atlas.consistent_empty
  fits id node hn := by cases hn

/-- Where no name is busy and no declaration is being made nothing is left to do. -/
theorem Tidy.finished (h : Tidy met none walk) (idle : walk.busy = []) : walk.atlas.Finished where
  known id node hn unknown := by
    have marker : node.isResolved = false := by
      rw [Node.isResolved, unknown]
      rfl
    obtain ⟨name, busy, -⟩ := (h.fits id node hn).marker marker
    rw [idle] at busy
    cases busy
  declared id node hn undeclared := by cases (h.fits id node hn).declared undeclared
  bounded id node hn := (h.fits id node hn).bounded
  methods id node hn key ref listed := by
    obtain ⟨identity, method, -, leads⟩ := (h.fits id node hn).listed key ref listed
    exact h.lt_nodeCount leads

theorem Tidy.methodsAreFunctions (h : Tidy met none walk) (idle : walk.busy = [])
    (apart : Topic.Apart met) : walk.atlas.MethodsAreFunctions := by
  intro id node hn key ref listed
  obtain ⟨identity, method, asked, leads⟩ := (h.fits id node hn).listed key ref listed
  obtain ⟨found, there⟩ := (walk.atlas.lt_nodeCount_iff ref).1 (h.lt_nodeCount leads)
  rcases (h.fits ref found there).function apart identity method asked leads with marker | func
  · exact absurd (found.kind_of_not_resolved marker) ((h.finished idle).known ref found there)
  · cases kind : found.kind with
    | func signature => exact ⟨found, signature, there, kind⟩
    | _ =>
      rw [kind] at func
      cases func

theorem busy_visit (lookup : Lookup) (walk : Walk) (visit : Visit) :
    (visit.run lookup walk).busy = walk.busy := by
  have expands := onward_named lookup (depthBound lookup)
  cases visit with
  | type useName expr => exact (onward_type lookup expands useName expr walk).busy
  | declare sort name expr => exact (onward_type lookup expands none expr _).busy
  | attachDoc id pos => cases pos <;> rfl

/-- A visit to what is met keeps order. -/
theorem tidy_visit {here : Topic → Prop} {lookup : Lookup} (sub : ∀ topic, here topic → met topic)
    (closed : ∀ topic other, here topic → other ∈ topic.next lookup.definitions → here other)
    (visit : Visit) (asked : ∀ topic ∈ visit.topic?, here topic) (tidy : Tidy met none walk) :
    Tidy met none (visit.run lookup walk) := by
  cases visit with
  | type useName expr => exact (tidy_addType sub closed (asked _ rfl) tidy).1
  | declare sort name expr => exact tidy_declare sub closed (asked _ rfl) tidy name
  | attachDoc id pos => exact tidy.attachDoc lookup id pos

theorem tidy_visits (tour : Tour) (sub : ∀ topic, tour.Meets topic → met topic)
    {visits : List Visit} (mem : ∀ visit ∈ visits, visit ∈ tour.visits)
    (tidy : Tidy met none walk) : Tidy met none (visits.foldl (Visit.run tour.lookup) walk) := by
  induction visits generalizing walk with
  | nil => exact tidy
  | cons first rest ih =>
    exact ih (fun visit there => mem visit (List.mem_cons_of_mem _ there))
      (tidy_visit sub (fun _ _ met next => .next met next) first
        (fun topic eq => .visit (mem first List.mem_cons_self) eq) tidy)

/-- Within a tour no name is busy between visits. -/
theorem busy_visits (lookup : Lookup) (visits : List Visit) (walk : Walk) :
    (visits.foldl (Visit.run lookup) walk).busy = walk.busy := by
  induction visits generalizing walk with
  | nil => rfl
  | cons visit rest ih => exact (ih _).trans (busy_visit lookup walk visit)

/-- A tour to what is met keeps order. -/
theorem tidy_tour {atlas : Atlas} (tour : Tour) (sub : ∀ topic, tour.Meets topic → met topic)
    (tidy : Tidy met none { atlas }) : Tidy met none (tour.run atlas) :=
  tidy_visits tour sub (fun _ => id) tidy

/-- Tours to what is met keep order. -/
theorem tidy_tours (tours : List Tour) (atlas : Atlas)
    (sub : ∀ tour ∈ tours, ∀ topic, tour.Meets topic → met topic) (tidy : Tidy met none { atlas }) :
    Tidy met none { atlas := Tour.runAll tours atlas } := by
  induction tours generalizing atlas with
  | nil => exact tidy
  | cons first rest ih =>
    refine ih _ (fun tour mem => sub tour (List.mem_cons_of_mem _ mem)) ?_
    have idle : (first.run atlas).busy = [] := busy_visits first.lookup first.visits _
    have again : ({ atlas := (first.run atlas).atlas } : Walk) = first.run atlas := by
      rw [← idle]
    rw [again]
    exact tidy_tour first (sub first List.mem_cons_self) tidy

/-- No marker is left behind: after every visit of every tour no name is busy and
nothing is left to do, and methods are functions if no type that is met has the
name of a method that is met. -/
theorem finished_after_visits (tours : List Tour) (tour : Tour) :
    (tour.run (Tour.runAll tours {})).busy = [] ∧
    (tour.run (Tour.runAll tours {})).atlas.Finished ∧
    (Topic.Apart (Tour.Met (tours ++ [tour])) →
      (tour.run (Tour.runAll tours {})).atlas.MethodsAreFunctions) := by
  have start : Tidy (Tour.Met (tours ++ [tour])) none { atlas := {} } :=
    tidy_empty fun identity method => fun ⟨_, _, meets⟩ => meets.plain
  have before := tidy_tours tours {} (fun other mem topic meets =>
    ⟨other, List.mem_append_left _ mem, meets⟩) start
  have idle : (tour.run (Tour.runAll tours {})).busy = [] :=
    busy_visits tour.lookup tour.visits _
  have tidy := tidy_tour tour (fun topic meets =>
    ⟨tour, List.mem_append_right _ List.mem_cons_self, meets⟩) before
  exact ⟨idle, tidy.finished idle, tidy.methodsAreFunctions idle⟩

/-- A list type that refers to itself, with a method, an interface that mentions
itself, and two names that are aliases of each other, visited in two tours. -/
theorem finished_after_visits_cyclic :
    let list : TypeExpr := .named "p" "List"
    let sized : TypeExpr := .named "p" "Sized"
    let length : MethodExpr := ⟨"Len", none, ⟨some (.pointer list), [], [.basic "int"], false⟩⟩
    let size : MethodExpr := ⟨"Size", none, ⟨some sized, [], [sized], false⟩⟩
    let lookup : Lookup :=
      { definitions := ⟨[
          ("p", { name := "List", methods := [length]
                  underlying := .struct [⟨"next", false, "", .pointer list, none⟩] }),
          ("p", { name := "Sized", underlying := .interface [size] }),
          ("p", { name := "A", underlying := .named "p" "B" }),
          ("p", { name := "B", underlying := .named "p" "A" })]⟩
        comments := {} }
    let first : Tour := ⟨lookup, [.type none (.slice list), .type none (.named "p" "A")]⟩
    let second : Tour :=
      ⟨lookup, [.declare .variable { package := "p", name := "v" } sized, .attachDoc 0 none]⟩
    Topic.Apart (Tour.Met [first, second]) ∧
      (second.run (Tour.runAll [first] {})).busy = [] ∧
      (second.run (Tour.runAll [first] {})).atlas.Finished ∧
      (second.run (Tour.runAll [first] {})).atlas.MethodsAreFunctions := by
  intro list sized length size lookup first second
  have apart : Topic.Apart (Tour.Met [first, second]) := by
    let topics : List Topic := [.ofType (.slice list), .ofType list, .ofType (.pointer list),
      .type { package := "p", name := "List" } (.struct [⟨"next", false, "", .pointer list, none⟩]),
      .method { package := "p", name := "List.Len" } length, .ofType (.basic "int"),
      .ofType (.named "p" "A"), .ofType (.named "p" "B"), .ofType sized,
      .type { package := "p", name := "Sized" } (.interface [size]),
      .method { package := "p", name := "Sized.Size" } size]
    have closed : ∀ topic ∈ topics, ∀ other ∈ topic.next lookup.definitions, other ∈ topics := by
      simp [topics, Topic.next, Topic.ofType, Topic.ofDefinition, Definitions.of?,
        Definitions.find?, lookup, list, sized, length, size, TypeExpr.parts,
        TypeExpr.required, TypeExpr.isAliased, TypeExpr.canonicalName, SignatureExpr.parts,
        methodName, MethodExpr.declaringInterface?]
    refine Topic.apart_of_mem topics ?_ (by decide)
    rintro topic ⟨tour, mem, meets⟩
    rcases List.mem_cons.1 mem with rfl | mem
    · exact meets.mem_of_closed (by simp [first, Visit.topic?, topics, Topic.walked_none]) closed
    · rw [List.mem_singleton.1 mem] at meets
      exact meets.mem_of_closed (by simp [second, Visit.topic?, topics]) closed
  obtain ⟨idle, finished, functions⟩ := finished_after_visits [first] second
  exact ⟨apart, idle, finished, functions apart⟩

end Walk

end GoAtlas
