import GoAtlas.Proofs.Walk.Finished

/-!
# The first writer wins

An atlas is written by its own calls and by the visits of walkers, in any order
(`Writing`). What was written first lasts: a name leads where it led, a node keeps its
name, and a kind stays once it is known, with two exceptions that `Kind.Becomes` lists.
The calls of the atlas itself leave a described node as it is, except that they finish a
declaration; the visits of a walker leave its methods alone, and its earlier comments
unless they document the node.
-/

namespace GoAtlas

/-! ## Kinds and nodes -/

/-- What may become of a kind: a marker becomes anything, a declaration is finished, and
the comment of a function is written again. Nothing else changes, so a declaration that
has its type keeps it. -/
inductive Kind.Becomes : Kind → Kind → Prop
  | same (kind : Kind) : Becomes kind kind
  | marker (kind : Kind) : Becomes .unknown kind
  | declared (underlying : NodeId) : Becomes (.declaration none) (.declaration (some underlying))
  | comment (signature : Signature) (comments : List String) :
      Becomes (.func signature) (.func { signature with comments })

namespace Kind

theorem isFunc_quiet (kind : Kind) : kind.quiet.isFunc = kind.isFunc := by
  cases kind <;> rfl

theorem quiet_of_not_func {kind : Kind} (h : ¬ kind.isFunc = true) : kind.quiet = kind := by
  cases kind with
  | func signature => exact absurd rfl h
  | _ => rfl

namespace Becomes

variable {kind between later : Kind}

theorem trans (h : kind.Becomes between) (h' : between.Becomes later) : kind.Becomes later := by
  cases h with
  | same => exact h'
  | marker => exact .marker later
  | declared underlying =>
    cases h' with
    | same => exact .declared underlying
  | comment signature comments =>
    cases h' with
    | same => exact .comment signature comments
    | comment _ others => exact .comment signature others

/-- Only the comment of a function is left out of a quiet kind. -/
theorem of_quiet (h : later.quiet = kind.quiet) : kind.Becomes later := by
  by_cases func : kind.isFunc = true
  · cases kind with
    | func first =>
      cases later with
      | func signature =>
        obtain ⟨receiver, parameters, results, variadic, comments⟩ := signature
        cases h
        exact .comment first comments
      | _ => cases h
    | _ => cases func
  · have other : ¬ later.isFunc = true := by rwa [← isFunc_quiet, h, isFunc_quiet]
    rw [quiet_of_not_func func, quiet_of_not_func other] at h
    rw [h]
    exact .same kind

end Becomes

end Kind

/-- What lasts of a node, whoever writes. -/
structure Node.Lasts (node later : Node) : Prop where
  name : later.name = node.name
  kind : node.kind.Becomes later.kind

namespace Node

variable {node between later : Node}

theorem Lasts.refl (node : Node) : node.Lasts node :=
  ⟨rfl, .same _⟩

theorem Lasts.trans (h : node.Lasts between) (h' : between.Lasts later) : node.Lasts later :=
  ⟨h'.name.trans h.name, h.kind.trans h'.kind⟩

theorem Kept.lasts (h : node.Kept later) : node.Lasts later := by
  refine ⟨h.name, ?_⟩
  cases resolved : node.isResolved with
  | true => exact .of_quiet (h.described resolved).1
  | false =>
    rw [node.kind_of_not_resolved resolved]
    exact .marker _

end Node

namespace Atlas

/-! ## Atlases -/

/-- Names lead where they led, and nodes last. -/
structure Lasts (before after : Atlas) : Prop where
  bound : ∀ slot id, before.target? slot = some id → after.target? slot = some id
  kept : ∀ id node, before.node? id = some node →
    ∃ later, after.node? id = some later ∧ node.Lasts later

variable {before between after atlas : Atlas} {id : NodeId} {node : Node}

theorem Lasts.refl (atlas : Atlas) : atlas.Lasts atlas :=
  ⟨fun _ _ found => found, fun _ node hn => ⟨node, hn, .refl node⟩⟩

theorem Lasts.trans (h : before.Lasts between) (h' : between.Lasts after) :
    before.Lasts after where
  bound slot id found := h'.bound slot id (h.bound slot id found)
  kept id node hn := by
    obtain ⟨middle, hm, first⟩ := h.kept id node hn
    obtain ⟨later, hl, second⟩ := h'.kept id middle hm
    exact ⟨later, hl, first.trans second⟩

theorem Extends.lasts (h : before.Extends after) : before.Lasts after where
  bound := h.bound
  kept id node hn := by
    obtain ⟨later, hl, kept⟩ := h.kept id node hn
    exact ⟨later, hl, kept.lasts⟩

theorem Extends.declarationNode (atlas : Atlas) (sort : DeclarationSort) (name : Name) :
    atlas.Extends (atlas.declarationNode sort name).2 := by
  rw [declarationNode_eq]
  split
  · exact refl atlas
  · next free => exact addNode free _

/-- What a record is given besides its tables does not count. -/
theorem Extends.updatePackage {path : String} {f : Package → Package}
    (shelf : ∀ package, (f package).shelf = package.shelf) :
    atlas.Extends (atlas.updatePackage path f) where
  bound slot _ found := (target?_updatePackage atlas path shelf slot).trans found
  kept _ node hn := ⟨node, hn, .refl node⟩

theorem Extends.addImports (atlas : Atlas) (path : String) (imports : List String) :
    atlas.Extends (atlas.addImports path imports) := by
  unfold Atlas.addImports
  induction imports generalizing atlas with
  | nil => exact refl atlas
  | cons imported rest ih =>
    have first : atlas.Extends (atlas.addImport path imported) :=
      (updatePackage fun _ => rfl).trans (updatePackage fun _ => rfl)
    exact first.trans (ih _)

/-- A declaration is finished, if it was not; any other node stays as it is. -/
theorem node?_declare (hn : atlas.node? id = some node) (place underlying : NodeId) :
    (atlas.declare place underlying).node? id = some node ∨
      node.kind = .declaration none ∧
        (atlas.declare place underlying).node? id =
          some { node with kind := .declaration (some underlying) } := by
  unfold declare
  split
  · next undeclared =>
    rw [node?_updateNode]
    by_cases here : id = place
    · subst here
      rw [isUndeclared, hn, Option.any_some] at undeclared
      rw [if_pos rfl, hn]
      exact .inr ⟨eq_of_beq undeclared, rfl⟩
    · rw [if_neg here]
      exact .inl hn
  · exact .inl hn

theorem lasts_declare (atlas : Atlas) (place underlying : NodeId) :
    atlas.Lasts (atlas.declare place underlying) where
  bound slot id found := by
    unfold declare
    split <;> exact found
  kept id node hn := by
    rcases node?_declare hn place underlying with same | ⟨kind, finished⟩
    · exact ⟨node, same, .refl node⟩
    · refine ⟨_, finished, rfl, ?_⟩
      rw [kind]
      exact .declared underlying

/-- Asking for a name changes no node. -/
theorem node?_typeNode_of_some (hn : atlas.node? id = some node) (name : Name) :
    (atlas.typeNode name).2.node? id = some node := by
  let keeps (before after : Atlas) : Prop :=
    before.node? id = some node → after.node? id = some node
  have steps : keeps atlas (atlas.typeNode name).2 :=
    typeNode_steps (fun _ hn => hn) (fun first second hn => second (first hn))
      (fun _ _ _ _ hn => node?_addNode_of_some hn) (fun _ _ _ _ hn => hn) atlas name
  exact steps hn

/-- Importing changes no node. -/
theorem node?_addImports (atlas : Atlas) (path : String) (imports : List String) (id : NodeId) :
    (atlas.addImports path imports).node? id = atlas.node? id := by
  unfold addImports
  induction imports generalizing atlas with
  | nil => rfl
  | cons imported rest ih => exact ih _

/-! ## Calls of an atlas -/

theorem Operation.lasts (atlas : Atlas) (operation : Operation) :
    atlas.Lasts (operation.run atlas) := by
  cases operation with
  | package path => exact (Extends.updatePackage fun _ => rfl).lasts
  | type name => exact (Extends.typeNode atlas name).lasts
  | declaration sort name => exact (Extends.declarationNode atlas sort name).lasts
  | resolve id kind => exact (Extends.resolve atlas id kind).lasts
  | declare id underlying => exact lasts_declare atlas id underlying
  | addImports path imports => exact (Extends.addImports atlas path imports).lasts

/-- A call leaves a described node as it is, or finishes a declaration. -/
theorem Operation.node?_run (operation : Operation) (hn : atlas.node? id = some node)
    (resolved : node.isResolved = true) :
    (operation.run atlas).node? id = some node ∨
      node.kind = .declaration none ∧ ∃ underlying, (operation.run atlas).node? id =
        some { node with kind := .declaration (some underlying) } := by
  cases operation with
  | package path => exact .inl hn
  | type name => exact .inl (node?_typeNode_of_some hn name)
  | declaration sort name =>
    refine .inl ?_
    show (atlas.declarationNode sort name).2.node? id = some node
    rw [declarationNode_eq]
    split
    · exact hn
    · exact node?_addNode_of_some hn
  | resolve place kind =>
    refine .inl ?_
    show (atlas.resolve place kind).node? id = some node
    unfold Atlas.resolve
    split
    · next marker =>
      rw [node?_updateNode, if_neg, hn]
      -- a described node is no marker
      rintro rfl
      rw [isMarker, hn, Option.any_some, resolved] at marker
      cases marker
    · exact hn
  | declare place underlying =>
    rcases node?_declare hn place underlying with same | ⟨kind, finished⟩
    · exact .inl same
    · exact .inr ⟨kind, underlying, finished⟩
  | addImports path imports => exact .inl ((node?_addImports atlas path imports id).trans hn)

end Atlas

/-! ## Visits of a walker -/

namespace Visit

/-- The node whose comments a visit writes. -/
def documented? : Visit → Option NodeId
  | .attachDoc id _ => some id
  | .type _ _ | .declare _ _ _ => none

/-- What documenting a node does to any node. -/
theorem node?_attachDoc (lookup : Lookup) {walk : Walk} {place id : NodeId} {node : Node}
    (hn : walk.atlas.node? id = some node) (pos : Option Position) :
    ∃ later, (walk.attachDoc lookup place pos).atlas.node? id = some later ∧
      later.name = node.name ∧ later.kind = node.kind ∧ later.methods = node.methods ∧
      (id ≠ place → later = node) := by
  unfold Walk.attachDoc
  split
  · exact ⟨node, hn, rfl, rfl, rfl, fun _ => rfl⟩
  · dsimp only
    rw [Atlas.node?_updateNode]
    by_cases here : id = place
    · subst here
      rw [if_pos rfl, hn]
      exact ⟨_, rfl, rfl, rfl, rfl, fun other => absurd rfl other⟩
    · rw [if_neg here]
      exact ⟨node, hn, rfl, rfl, rfl, fun _ => rfl⟩

/-- A declaration that is visited is made, its type is walked, and it is given the type. -/
theorem extends_before_declare (lookup : Lookup) (sort : DeclarationSort) (name : Name)
    (expr : TypeExpr) (walk : Walk) :
    walk.atlas.Extends (Walk.addType lookup none expr
      { walk with atlas := (walk.atlas.declarationNode sort name).2 }).2.atlas := by
  have made := Atlas.Extends.declarationNode walk.atlas sort name
  have walked := Walk.carries_onward.addType lookup none expr
    { walk with atlas := (walk.atlas.declarationNode sort name).2 }
  exact made.trans walked.atlas

theorem lasts (lookup : Lookup) (walk : Walk) (visit : Visit) :
    walk.atlas.Lasts (visit.run lookup walk).atlas := by
  cases visit with
  | type useName expr => exact (Walk.carries_onward.addType lookup useName expr walk).atlas.lasts
  | declare sort name expr =>
    exact (extends_before_declare lookup sort name expr walk).lasts.trans
      (Atlas.lasts_declare _ _ _)
  | attachDoc place pos =>
    constructor
    · intro slot id found
      show (walk.attachDoc lookup place pos).atlas.target? slot = some id
      unfold Walk.attachDoc
      split <;> exact found
    · intro id node hn
      obtain ⟨later, hl, name, kind, -⟩ := node?_attachDoc lookup hn pos
      exact ⟨later, hl, name, kind ▸ .same _⟩

/-- A visit leaves the methods of a described node alone, and its earlier comments
unless it documents the node. -/
theorem node?_run (lookup : Lookup) (walk : Walk) (visit : Visit) {id : NodeId} {node : Node}
    (hn : walk.atlas.node? id = some node) (resolved : node.isResolved = true) :
    ∃ later, (visit.run lookup walk).atlas.node? id = some later ∧
      later.methods = node.methods ∧
      (visit.documented? ≠ some id → later.earlierComments = node.earlierComments) := by
  cases visit with
  | type useName expr =>
    obtain ⟨later, hl, kept⟩ :=
      (Walk.carries_onward.addType lookup useName expr walk).atlas.kept id node hn
    exact ⟨later, hl, (kept.described resolved).2, fun _ => kept.earlierComments⟩
  | declare sort name expr =>
    obtain ⟨later, hl, kept⟩ :=
      (extends_before_declare lookup sort name expr walk).kept id node hn
    have methods := (kept.described resolved).2
    rcases Atlas.node?_declare hl (walk.atlas.declarationNode sort name).1 (Walk.addType lookup
      none expr { walk with atlas := (walk.atlas.declarationNode sort name).2 }).1 with
      same | ⟨-, finished⟩
    · exact ⟨later, same, methods, fun _ => kept.earlierComments⟩
    · exact ⟨_, finished, methods, fun _ => kept.earlierComments⟩
  | attachDoc place pos =>
    obtain ⟨later, hl, -, -, methods, other⟩ := node?_attachDoc lookup hn pos
    refine ⟨later, hl, methods, fun elsewhere => ?_⟩
    rw [other fun here => elsewhere (congrArg some here.symm)]

end Visit

/-! ## Whole runs -/

/-- Something that is written into an atlas, by a call of its own or by a walker. A
walker has no name busy between its visits, so each may be by a new one. -/
inductive Writing where
  | call (operation : Atlas.Operation)
  | walk (lookup : Lookup) (visit : Visit)

namespace Writing

/-- The atlas after it was written. -/
def run (atlas : Atlas) : Writing → Atlas
  | .call operation => operation.run atlas
  | .walk lookup visit => (visit.run lookup { atlas }).atlas

/-- The atlas after it was written a number of times. -/
def runAll (atlas : Atlas) (writings : List Writing) : Atlas :=
  writings.foldl run atlas

theorem lasts (atlas : Atlas) (writing : Writing) : atlas.Lasts (writing.run atlas) := by
  cases writing with
  | call operation => exact operation.lasts atlas
  | walk lookup visit => exact visit.lasts lookup { atlas }

theorem lasts_runAll (atlas : Atlas) (writings : List Writing) :
    atlas.Lasts (runAll atlas writings) := by
  induction writings generalizing atlas with
  | nil => exact .refl atlas
  | cons writing rest ih => exact (writing.lasts atlas).trans (ih _)

/-- Whatever was written into an atlas and whatever is written next: names lead where they
led, nodes keep their names, and kinds stay as they are, apart from what `Kind.Becomes`
lists, over any number of further calls and visits. A single call changes no described
node, except that it finishes a declaration. A single visit of a walker leaves the methods
of a described node alone, and its earlier comments unless it is asked to document it. -/
theorem first_writer_wins (past later : List Writing) :
    let atlas := runAll {} past
    atlas.Lasts (runAll atlas later) ∧
    (∀ (operation : Atlas.Operation) id node, atlas.node? id = some node →
      node.isResolved = true → (operation.run atlas).node? id = some node ∨
        node.kind = .declaration none ∧ ∃ underlying, (operation.run atlas).node? id =
          some { node with kind := .declaration (some underlying) }) ∧
    ∀ lookup (visit : Visit) id node, atlas.node? id = some node → node.isResolved = true →
      ∃ node', (visit.run lookup { atlas }).atlas.node? id = some node' ∧
        node'.methods = node.methods ∧
        (visit.documented? ≠ some id → node'.earlierComments = node.earlierComments) := by
  intro atlas
  refine ⟨lasts_runAll atlas later, ?_, ?_⟩
  · intro operation id node hn resolved
    exact operation.node?_run hn resolved
  · intro lookup visit id node hn resolved
    exact visit.node?_run lookup { atlas } hn resolved

end Writing

end GoAtlas
