import GoAtlas.Proofs.Walk.FirstWriter

/-!
# What a walk does not write

A walk writes into the tables of types, and into the nodes that it describes. The rest of
every record stays as it is, the tables of declarations included; and so do the comments
of every node, unless it is the node of a method (`Atlas.Reserves`).
-/

namespace GoAtlas

/-- A record without its types. -/
def Package.untyped (package : Package) : Package :=
  { package with types := ∅ }

theorem Package.declarations_of_untyped {package other : Package}
    (h : package.untyped = other.untyped) : package.declarations = other.declarations := by
  have same := congrArg Package.declarations h
  funext sort
  have same := congrFun same sort
  cases sort <;> exact same

namespace Atlas

variable {before between after atlas : Atlas} {id : NodeId} {name : Name}

/-! ## Records -/

theorem package_updatePackage (atlas : Atlas) (path : String) (f : Package → Package)
    (other : String) :
    (atlas.updatePackage path f).package other =
      if other = path then f (atlas.package path) else atlas.package other := by
  rw [package, get?_packages_updatePackage]
  split <;> rfl

theorem contains_updatePackage (atlas : Atlas) (path : String) (f : Package → Package)
    (other : String) :
    (atlas.updatePackage path f).packages.contains other = true ↔
      other = path ∨ atlas.packages.contains other = true := by
  rw [Table.contains, get?_packages_updatePackage]
  by_cases here : other = path
  · simp [here]
  · simp [here, Table.contains]

/-- A record that is there is the record of its package. -/
theorem package_of_get? {path : String} {record : Package}
    (there : atlas.packages.get? path = some record) : atlas.package path = record := by
  rw [package, there]
  rfl

/-! ## The relation -/

/-- The later atlas extends the earlier one, and has nothing new but types, and comments
of methods. -/
structure Reserves (before after : Atlas) : Prop extends Extends before after where
  untyped : ∀ path, (after.package path).untyped = (before.package path).untyped
  recorded : ∀ path, before.packages.contains path = true → after.packages.contains path = true
  comments : ∀ id node later, before.node? id = some node → after.node? id = some later →
    later.comments = node.comments ∨
      ∃ owner method, after.findType? (methodName owner method) = some id

namespace Reserves

theorem refl (atlas : Atlas) : atlas.Reserves atlas where
  toExtends := .refl atlas
  untyped _ := rfl
  recorded _ there := there
  comments id node later hn hl := by
    rw [hn] at hl
    cases hl
    exact .inl rfl

theorem trans (h : before.Reserves between) (h' : between.Reserves after) :
    before.Reserves after where
  toExtends := h.toExtends.trans h'.toExtends
  untyped path := (h'.untyped path).trans (h.untyped path)
  recorded path there := h'.recorded path (h.recorded path there)
  comments id node later hn hl := by
    obtain ⟨middle, hm, -⟩ := h.kept id node hn
    rcases h'.comments id middle later hm hl with second | method
    · rcases h.comments id node middle hn hm with first | ⟨owner, method, leads⟩
      · exact .inl (second.trans first)
      · exact .inr ⟨owner, method, h'.toExtends.findType? leads⟩
    · exact .inr method

/-- A free type name may be bound to a node. -/
theorem bind (free : atlas.target? name.slot = none) (id : NodeId) :
    atlas.Reserves (atlas.bind name.slot id) where
  toExtends := .bind free id
  untyped path := by
    rw [Atlas.bind, package_updatePackage]
    split
    · next here =>
      rw [here]
      rfl
    · rfl
  recorded path there := (contains_updatePackage _ _ _ _).2 (.inr there)
  comments other node later hn hl := by
    rw [node?_bind, hn] at hl
    cases hl
    exact .inl rfl

/-- A free type name may be given a new node. -/
theorem addNode (free : atlas.target? name.slot = none) (node : Node) :
    atlas.Reserves (atlas.addNode name.slot node) where
  toExtends := .addNode free node
  untyped path := by
    rw [Atlas.addNode, Atlas.bind, package_updatePackage]
    split
    · next here =>
      rw [here]
      rfl
    · rfl
  recorded path there := (contains_updatePackage _ _ _ _).2 (.inr there)
  comments other node later hn hl := by
    rw [node?_addNode_of_some hn] at hl
    cases hl
    exact .inl rfl

theorem typeNode (atlas : Atlas) (name : Name) : atlas.Reserves (atlas.typeNode name).2 :=
  typeNode_steps refl trans (fun _ _ node free => addNode free node)
    (fun _ _ id free => bind free id) atlas name

/-- The comments of a node may change with the node, if it is the node of a method. -/
theorem updateNode (h : before.Reserves after) {f : Node → Node}
    (extends_ : before.Extends (after.updateNode id f))
    (comments : (∀ node, (f node).comments = node.comments) ∨
      ∃ owner method, after.findType? (methodName owner method) = some id) :
    before.Reserves (after.updateNode id f) where
  toExtends := extends_
  untyped := h.untyped
  recorded := h.recorded
  comments other node later hn hl := by
    rw [node?_updateNode] at hl
    split at hl
    · next here =>
      subst here
      obtain ⟨between, hb, rfl⟩ := Option.map_eq_some_iff.1 hl
      rcases comments with same | method
      · rw [same]
        exact h.comments other node between hn hb
      · exact .inr method
    · exact h.comments other node later hn hl

theorem resolve (atlas : Atlas) (id : NodeId) (kind : Kind) :
    atlas.Reserves (atlas.resolve id kind) := by
  have extends_ := Extends.resolve atlas id kind
  unfold Atlas.resolve at extends_ ⊢
  split
  · next marker =>
    rw [if_pos marker] at extends_
    exact (refl atlas).updateNode extends_ (.inl fun _ => rfl)
  · exact refl atlas

end Reserves

end Atlas

namespace Walk

/-- Every part of a walk leaves alone what a walk does not write. -/
theorem carries_reserves : Carries fun before after => before.atlas.Reserves after.atlas where
  refl walk := .refl walk.atlas
  trans := .trans
  findType? reserves _ _ found := reserves.findType? found
  claim walk name := .typeNode walk.atlas name
  resolve walk id kind := .resolve walk.atlas id kind
  finish fresh reserves kind := by
    rename_i walk claimed after name id
    have made : (walk.atlas.typeNode name).2 = claimed.atlas :=
      congrArg (fun claim => claim.2.atlas) fresh
    have claim : walk.atlas.Reserves claimed.atlas := made ▸ .typeNode walk.atlas name
    exact (claim.trans reserves).trans (.resolve _ _ _)
  setMethods reserves undescribed methods := by
    rename_i base walk id
    unfold Walk.setMethods
    split
    · exact reserves
    · exact reserves.updateNode (reserves.rewrite undescribed (fun _ => rfl) fun _ => rfl)
        (.inl fun _ => rfl)
  comment leads comments :=
    (Atlas.Reserves.refl _).updateNode (onward_setMethodComments _ _ comments).atlas
      (.inr ⟨_, _, leads⟩)

theorem consistent_attachDoc (lookup : Lookup) {walk : Walk} (start : walk.atlas.Consistent)
    (id : NodeId) (pos : Option Position) : (walk.attachDoc lookup id pos).atlas.Consistent := by
  unfold attachDoc
  split
  · exact start
  · exact start.updateNode id fun _ _ _ described =>
      described.rewrite rfl (fun kind => kind) fun underlying kind => ⟨underlying, kind⟩

/-- A walk goes from a consistent atlas to a consistent one. -/
theorem carries_consistent : Carries fun before after => before.atlas.Reserves after.atlas ∧
    (before.atlas.Consistent → after.atlas.Consistent) where
  refl walk := ⟨carries_reserves.refl walk, id⟩
  trans first second :=
    ⟨carries_reserves.trans first.1 second.1, fun start => second.2 (first.2 start)⟩
  findType? goes := carries_reserves.findType? goes.1
  claim walk name := ⟨carries_reserves.claim walk name, fun start => start.typeNode name⟩
  resolve walk id kind :=
    ⟨carries_reserves.resolve walk id kind, fun start => start.resolve id kind⟩
  finish fresh goes kind := by
    refine ⟨carries_reserves.finish fresh goes.1 kind, fun start => ?_⟩
    rename_i walk claimed after name id
    have made : (walk.atlas.typeNode name).2 = claimed.atlas :=
      congrArg (fun claim => claim.2.atlas) fresh
    have claim : claimed.atlas.Consistent := made ▸ start.typeNode name
    exact (goes.2 claim).resolve id kind
  setMethods goes undescribed methods :=
    ⟨carries_reserves.setMethods goes.1 undescribed methods,
      fun start => consistent_setMethods (goes.2 start) _ methods⟩
  comment leads comments :=
    ⟨carries_reserves.comment leads comments,
      fun start => consistent_setMethodComments start _ comments⟩

end Walk

end GoAtlas
