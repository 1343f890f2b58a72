import GoAtlas.Proofs.Walk.Finished
import GoAtlas.Proofs.Walk.Reserved

/-!
# Visits made again

What is visited has its name in the atlas from then on, and between visits no node is a
marker. So a visit that is made again finds its node described and goes no further: it gives
the same node and changes nothing (`addType_again`, `declare_again`), whatever was visited in
between, and whatever is looked up now (`visits_again`).
-/

namespace GoAtlas

/-! ## What tours keep -/

namespace Tour

theorem lasts_visits (lookup : Lookup) (visits : List Visit) (walk : Walk) :
    walk.atlas.Lasts (visits.foldl (Visit.run lookup) walk).atlas := by
  induction visits generalizing walk with
  | nil => exact .refl _
  | cons visit rest ih => exact (visit.lasts lookup walk).trans (ih _)

theorem lasts (tour : Tour) (atlas : Atlas) : atlas.Lasts (tour.run atlas).atlas :=
  lasts_visits tour.lookup tour.visits { atlas }

theorem lasts_runAll (tours : List Tour) (atlas : Atlas) : atlas.Lasts (runAll tours atlas) := by
  induction tours generalizing atlas with
  | nil => exact .refl atlas
  | cons tour rest ih => exact (tour.lasts atlas).trans (ih _)

theorem run_runAll (tours : List Tour) (tour : Tour) (atlas : Atlas) :
    tour.run (runAll tours atlas) = { atlas := runAll (tours ++ [tour]) atlas } := by
  have idle : (tour.run (runAll tours atlas)).busy = [] :=
    Walk.busy_visits tour.lookup tour.visits _
  have after : runAll (tours ++ [tour]) atlas = (tour.run (runAll tours atlas)).atlas :=
    List.foldl_append
  rw [after, ← idle]

theorem finished_runAll (tours : List Tour) : (runAll tours {}).Finished := by
  have start : Walk.Tidy (Met tours) none { atlas := {} } :=
    Walk.tidy_empty fun identity method => fun ⟨_, _, meets⟩ => meets.plain
  exact (Walk.tidy_tours tours {} (fun tour mem topic meets => ⟨tour, mem, meets⟩)
    start).finished rfl

end Tour

/-! ## A single visit -/

namespace Walk

variable {atlas : Atlas} {name : Name} {id : NodeId}

/-- The name that a type is walked under. -/
def nameOf (useName : Option Name) (expr : TypeExpr) : Name :=
  if expr.isComposite then useName.getD expr.canonicalName else expr.canonicalName

theorem findType?_nameOf (lookup : Lookup) (useName : Option Name) (expr : TypeExpr) (walk : Walk) :
    (addType lookup useName expr walk).2.atlas.findType? (nameOf useName expr) =
      some (addType lookup useName expr walk).1 := by
  unfold nameOf
  split
  · next composite =>
    have describes := onward_describe lookup (onward_named lookup (depthBound lookup)) expr
      (useName.getD expr.canonicalName)
    rw [addType, type_eq_node lookup _ useName composite]
    exact findType?_node describes walk _
  · next simple =>
    cases expr with
    | basic spelling => exact findType?_addType lookup (.basic spelling) walk
    | named package name => exact findType?_addType lookup (.named package name) walk
    | _ => exact absurd rfl simple

theorem isMarker_eq_false (finished : atlas.Finished) (id : NodeId) :
    atlas.isMarker id = false := by
  cases there : atlas.node? id with
  | none => rw [Atlas.isMarker, there]; rfl
  | some node =>
    rw [Atlas.isMarker, there, Option.any_some, Node.isResolved, Bool.not_not]
    cases kind : node.kind with
    | unknown => exact absurd kind (finished.known id node there)
    | _ => rfl

theorem typeNode_of_found (found : atlas.findType? name = some id) :
    atlas.typeNode name = (id, atlas) := by
  rw [Atlas.typeNode, found]

/-- A name that is there is not described again. -/
theorem claim_of_found (finished : atlas.Finished) (found : atlas.findType? name = some id) :
    ({ atlas } : Walk).claim name = ((id, false), { atlas }) := by
  rw [claim, typeNode_of_found found]
  dsimp only
  rw [isMarker_eq_false finished, Bool.false_and]

/-- A type that is walked again keeps its node, and nothing changes. -/
theorem addType_again (lookup : Lookup) {useName : Option Name} {expr : TypeExpr}
    (finished : atlas.Finished) (found : atlas.findType? (nameOf useName expr) = some id) :
    addType lookup useName expr { atlas } = (id, { atlas }) := by
  unfold nameOf at found
  split at found
  · next composite =>
    rw [addType, type_eq_node lookup _ useName composite, node, claim_of_found finished found]
    rfl
  · next simple =>
    cases expr with
    | basic spelling =>
      have found : atlas.findType? (.bare spelling) = some id := found
      show basic { atlas } spelling = _
      rw [basic, typeNode_of_found found]
      dsimp only
      rw [Atlas.resolve, isMarker_eq_false finished, if_neg Bool.false_ne_true, ite_self]
    | named package name =>
      have found : atlas.findType? { package, name } = some id := found
      show named lookup (depthBound lookup) package name { atlas } = _
      rw [depthBound, named, claim_of_found finished found]
      rfl
    | _ => exact absurd rfl simple

/-- So does a declaration. -/
theorem declare_again (lookup : Lookup) {sort : DeclarationSort} {expr : TypeExpr}
    {underlying : NodeId} (finished : atlas.Finished)
    (found : atlas.target? ⟨name.package, name.name, .declaration sort⟩ = some id)
    (walked : atlas.findType? (nameOf none expr) = some underlying) :
    declare lookup sort name expr { atlas } = (id, { atlas }) := by
  have declared : atlas.isUndeclared id = false := by
    cases there : atlas.node? id with
    | none => rw [Atlas.isUndeclared, there]; rfl
    | some node =>
      rw [Atlas.isUndeclared, there, Option.any_some, beq_eq_false_iff_ne]
      exact finished.declared id node there
  rw [declare, Atlas.declarationNode_eq, found]
  dsimp only
  rw [addType_again lookup finished walked, Atlas.declare, declared]
  rfl

/-- What is visited is there from then on: the name of the declaration, and of its type. -/
theorem found_declare (lookup : Lookup) (sort : DeclarationSort) (name : Name) (expr : TypeExpr)
    (walk : Walk) :
    let visited := declare lookup sort name expr walk
    visited.2.atlas.target? ⟨name.package, name.name, .declaration sort⟩ = some visited.1 ∧
      ∃ underlying, visited.2.atlas.findType? (nameOf none expr) = some underlying := by
  intro visited
  let made : Walk := { walk with atlas := (walk.atlas.declarationNode sort name).2 }
  have walked := (carries_onward.addType lookup none expr made).atlas.bound
  have kept := (Atlas.lasts_declare (addType lookup none expr made).2.atlas
    (walk.atlas.declarationNode sort name).1 (addType lookup none expr made).1).bound
  refine ⟨kept _ _ (walked _ _ ?_), _,
    kept (nameOf none expr).slot _ (findType?_nameOf lookup none expr made)⟩
  show (walk.atlas.declarationNode sort name).2.target? _ =
    some (walk.atlas.declarationNode sort name).1
  rw [Atlas.declarationNode_eq]
  split
  · next found => exact found
  · rw [Atlas.target?_addNode, if_pos rfl]

/-- A visit made again, by the same walker or another one, at once or after any further visits
and tours, and whatever is looked up then, gives the same node, and the walk with its whole
atlas stays as it was before the repetition. -/
theorem visits_again (past later : List Tour) (tour last : Tour) :
    (∀ useName expr,
      let first := addType tour.lookup useName expr (tour.run (Tour.runAll past {}))
      let walk := last.run (Tour.runAll later first.2.atlas)
      first.2.busy = [] ∧ addType last.lookup useName expr walk = (first.1, walk)) ∧
    ∀ sort name expr,
      let first := declare tour.lookup sort name expr (tour.run (Tour.runAll past {}))
      let walk := last.run (Tour.runAll later first.2.atlas)
      first.2.busy = [] ∧ declare last.lookup sort name expr walk = (first.1, walk) := by
  have finished (visit : Visit) : (Tour.runAll (later ++ [last])
      (visit.run tour.lookup { atlas := Tour.runAll (past ++ [tour]) {} }).atlas).Finished := by
    have all := Tour.finished_runAll
      ((past ++ [tour]) ++ ⟨tour.lookup, [visit]⟩ :: (later ++ [last]))
    rwa [Tour.runAll, List.foldl_append] at all
  rw [Tour.run_runAll]
  constructor
  · intro useName expr first walk
    have found : first.2.atlas.findType? (nameOf useName expr) = some first.1 :=
      findType?_nameOf tour.lookup useName expr _
    have kept := (Tour.lasts_runAll (later ++ [last]) first.2.atlas).bound
    refine ⟨busy_visit tour.lookup _ (.type useName expr), ?_⟩
    rw [show walk = _ from Tour.run_runAll later last first.2.atlas]
    exact addType_again last.lookup (finished (.type useName expr))
      (kept (nameOf useName expr).slot _ found)
  · intro sort name expr first walk
    obtain ⟨found, underlying, walked⟩ := found_declare tour.lookup sort name expr
      { atlas := Tour.runAll (past ++ [tour]) {} }
    have kept := (Tour.lasts_runAll (later ++ [last]) first.2.atlas).bound
    refine ⟨busy_visit tour.lookup _ (.declare sort name expr), ?_⟩
    rw [show walk = _ from Tour.run_runAll later last first.2.atlas]
    exact declare_again last.lookup (finished (.declare sort name expr)) (kept _ _ found)
      (kept (nameOf none expr).slot _ walked)

end Walk

end GoAtlas
