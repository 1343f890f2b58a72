import GoAtlas.Proofs.Walk.Onward

/-!
# How deep a walk goes

A definition is entered for a name whose node is still a marker and that is not
busy. From then on the name is busy, and after that its node has its kind, so as
long as the walk is below that definition it is not entered again. `entered` is
this state of a name. No part of a walk takes it back, although busy names come
and go, and so the definitions whose names are not entered, `unentered`, bound
the depth of what is still to come.
-/

namespace GoAtlas.Walk

variable {walk before after claimed : Walk} {name other : Name} {id : NodeId}
  {definitions : Definitions}
variable {expand : String → String → Walk → NodeId × Walk}

/-- The name is busy, or its node has its kind. -/
def entered (walk : Walk) (name : Name) : Bool :=
  walk.busy.contains name
    || ((walk.atlas.findType? name).bind walk.atlas.node?).any Node.isResolved

theorem entered_iff : walk.entered name = true ↔ name ∈ walk.busy ∨
    ∃ id node, walk.atlas.findType? name = some id ∧ walk.atlas.node? id = some node ∧
      node.isResolved = true := by
  rw [entered, Bool.or_eq_true, List.contains_iff_mem, Option.any_eq_true]
  refine or_congr_right ⟨?_, ?_⟩
  · rintro ⟨node, there, resolved⟩
    obtain ⟨id, found, hn⟩ := Option.bind_eq_some_iff.1 there
    exact ⟨id, node, found, hn, resolved⟩
  · rintro ⟨id, node, found, hn, resolved⟩
    exact ⟨node, Option.bind_eq_some_iff.2 ⟨id, found, hn⟩, resolved⟩

/-- What is entered stays entered. -/
theorem Onward.entered (h : before.Onward after) (there : before.entered name = true) :
    after.entered name = true := by
  rcases entered_iff.1 there with busy | ⟨id, node, found, hn, resolved⟩
  · exact entered_iff.2 (.inl (h.busy ▸ busy))
  · obtain ⟨later, hl, kept⟩ := h.atlas.kept id node hn
    exact entered_iff.2 (.inr ⟨id, later, h.atlas.findType? found, hl, kept.isResolved resolved⟩)

theorem entered_start (there : walk.entered other = true) :
    (walk.start name).entered other = true := by
  rcases entered_iff.1 there with busy | resolved
  · exact entered_iff.2 (.inl (List.mem_cons_of_mem _ busy))
  · exact entered_iff.2 (.inr resolved)

section

variable (fresh : walk.claim name = ((id, true), claimed))

include fresh

/-- A name that is to be described was not entered. -/
theorem not_entered_of_claim : walk.entered name = false := by
  refine eq_false_of_ne_true fun there => ?_
  rcases entered_iff.1 there with busy | ⟨place, node, found, hn, resolved⟩
  · exact (fresh_of_claim fresh).2 busy
  · have same : place = id := by
      have claim := findType?_claim walk name
      rw [(onward_claim walk name).atlas.findType? found, fresh] at claim
      exact Option.some.inj claim
    subst same
    rw [undescribed_of_claim fresh node hn] at resolved
    cases resolved

/-- A name that was claimed still leads to its node when the parts are walked. -/
theorem Onward.node_of_claim (h : (claimed.start name).Onward after) :
    after.atlas.findType? name = some id ∧ ∃ node, after.atlas.node? id = some node := by
  have found := findType?_claim walk name
  rw [fresh] at found
  refine ⟨h.atlas.findType? found, ?_⟩
  obtain ⟨node, hn, -⟩ := (Option.any_eq_true ..).1 (fresh_of_claim fresh).1
  obtain ⟨later, hl, -⟩ := h.atlas.kept id node hn
  exact ⟨later, hl⟩

/-- Once its node has its kind, a name that was claimed is entered. -/
theorem entered_finish (h : (claimed.start name).Onward after) {kind : Kind}
    (known : kind.isUnknown = false) : (after.finish id name kind).entered name = true := by
  obtain ⟨found, node, hn⟩ := h.node_of_claim fresh
  have extends' : after.atlas.Extends (after.finish id name kind).atlas := .resolve _ _ _
  refine entered_iff.2 (.inr ?_)
  by_cases resolved : node.isResolved = true
  · obtain ⟨later, hl, kept⟩ := extends'.kept id node hn
    exact ⟨id, later, extends'.findType? found, hl, kept.isResolved resolved⟩
  · have marker : after.atlas.isMarker id = true := by
      rw [Atlas.isMarker, hn, Option.any_some, eq_false_of_ne_true resolved]
      rfl
    refine ⟨id, { node with kind }, extends'.findType? found, ?_, ?_⟩
    · rw [finish, Atlas.resolve, if_pos marker, Atlas.node?_updateNode, if_pos rfl, hn]
      rfl
    · rw [Node.isResolved, known]
      rfl

end

theorem entered_setMethods (there : walk.entered name = true) (methods : Table NodeId) :
    (walk.setMethods id methods).entered name = true := by
  unfold setMethods
  split
  · exact there
  · rcases entered_iff.1 there with busy | ⟨place, node, found, hn, resolved⟩
    · exact entered_iff.2 (.inl busy)
    · refine entered_iff.2 (.inr ⟨place, ?_⟩)
      rw [Atlas.node?_updateNode]
      split
      · next same =>
        subst same
        exact ⟨{ node with methods }, found, by rw [hn]; rfl, resolved⟩
      · exact ⟨node, found, hn, resolved⟩

/-- A named type that was given its kind is entered. -/
theorem entered_defineKind {lookup : Lookup}
    (expands : ∀ package name walk, Onward walk (expand package name walk).2)
    (fresh : walk.claim name = ((id, true), claimed)) (definition : Definition) :
    (defineKind lookup expand claimed id name definition).entered name = true := by
  cases aliased : definition.underlying.isAliased with
  | true =>
    rw [defineKind, if_pos aliased]
    exact entered_finish fresh (onward_type lookup expands none _ _) rfl
  | false =>
    rw [defineKind_of_claim lookup expand fresh aliased, node, fresh]
    exact entered_setMethods (entered_finish fresh (onward_describe lookup expands _ _ _)
      (describe_known lookup expand _ _ _)) _

/-! ## Counting -/

/-- The number of definitions whose names are not entered. -/
def unentered (definitions : Definitions) (walk : Walk) : Nat :=
  definitions.names.countP fun name => !walk.entered name

theorem unentered_le (h : ∀ name, before.entered name = true → after.entered name = true) :
    after.unentered definitions ≤ before.unentered definitions := by
  refine List.countP_mono_left fun name _ new => ?_
  rw [Bool.not_eq_true'] at new ⊢
  exact eq_false_of_ne_true fun there => Bool.false_ne_true (new.symm.trans (h name there))

theorem Onward.unentered_le (h : before.Onward after) :
    after.unentered definitions ≤ before.unentered definitions :=
  Walk.unentered_le fun _ => h.entered

theorem unentered_lt (h : ∀ name, before.entered name = true → after.entered name = true)
    (mem : name ∈ definitions.names) (new : before.entered name = false)
    (there : after.entered name = true) :
    after.unentered definitions < before.unentered definitions := by
  obtain ⟨front, back, split⟩ := List.append_of_mem mem
  have monotone : ∀ names : List Name, names.countP (fun name => !after.entered name) ≤
      names.countP fun name => !before.entered name := fun names =>
    List.countP_mono_left fun name _ now => by
      rw [Bool.not_eq_true'] at now ⊢
      exact eq_false_of_ne_true fun was => Bool.false_ne_true (now.symm.trans (h name was))
  have front' := monotone front
  have back' := monotone back
  simp only [unentered, split, List.countP_append, List.countP_cons, new, there, Bool.not_true,
    Bool.not_false, Bool.false_eq_true, if_true, if_false]
  omega

/-- No more definitions are left below a node than were left above it. -/
theorem unentered_start {answer : NodeId × Bool} (claim : walk.claim name = (answer, claimed)) :
    (claimed.start name).unentered definitions ≤ walk.unentered definitions := by
  refine unentered_le fun other there => entered_start ?_
  have onward := onward_claim walk name
  rw [claim] at onward
  exact onward.entered there

/-- One definition less is left below a named type. -/
theorem unentered_start_lt (fresh : walk.claim name = ((id, true), claimed))
    (mem : name ∈ definitions.names) :
    (claimed.start name).unentered definitions < walk.unentered definitions := by
  refine unentered_lt (fun other there => entered_start ?_) mem (not_entered_of_claim fresh) ?_
  · have onward := onward_claim walk name
    rw [fresh] at onward
    exact onward.entered there
  · exact entered_iff.2 (.inl List.mem_cons_self)

/-- One definition less is left once a named type has its kind. -/
theorem unentered_defineKind_lt (lookup : Lookup)
    (expands : ∀ package name walk, Onward walk (expand package name walk).2)
    (fresh : walk.claim name = ((id, true), claimed)) (mem : name ∈ definitions.names)
    (definition : Definition) :
    (defineKind lookup expand claimed id name definition).unentered definitions <
      walk.unentered definitions :=
  unentered_lt (fun _ => (Onward.defineKind lookup expands fresh definition).entered) mem
    (not_entered_of_claim fresh) (entered_defineKind expands fresh definition)

/-- There is always room for the definitions that are left. -/
theorem unentered_lt_depthBound (lookup : Lookup) (walk : Walk) :
    walk.unentered lookup.definitions < depthBound lookup := by
  have count := List.countP_le_length (l := lookup.definitions.names)
    (p := fun name => !walk.entered name)
  rw [Definitions.names, List.length_map] at count
  exact Nat.lt_succ_of_le count

end GoAtlas.Walk
