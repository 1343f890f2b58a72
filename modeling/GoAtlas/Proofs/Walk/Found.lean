import GoAtlas.Proofs.Walk.Onward

/-!
# What a walk answers with

A walk goes onward, so a type leads to the node that it was answered with from then on. With
that the answers are settled, in whatever atlas they were found: the kind that is found for a
type is the one it should have over the nodes of its parts (`kind?_describe`), and the table
of its methods leads to their nodes (`lists_methodsOf`).
-/

namespace GoAtlas.Walk

/-- The name of a node leads to it. -/
theorem findType?_node {describe : Walk → (Kind × Table NodeId) × Walk}
    (onward : ∀ walk, Onward walk (describe walk).2) (walk : Walk) (name : Name) :
    (walk.node name describe).2.atlas.findType? name = some (walk.node name describe).1 :=
  carries_onward.findType?_node onward walk name

theorem basic_eq (walk : Walk) (spelling : String) :
    walk.basic spelling = ((walk.claim (.bare spelling)).1.1,
      if Primitive.isRegistered spelling then (walk.claim (.bare spelling)).2
      else { (walk.claim (.bare spelling)).2 with
        atlas := (walk.claim (.bare spelling)).2.atlas.resolve (walk.claim (.bare spelling)).1.1
          .unsupported }) := by
  by_cases registered : Primitive.isRegistered spelling = true
  · simp only [basic, Walk.claim, if_pos registered]
  · simp only [basic, Walk.claim, if_neg registered]

theorem findType?_basic (walk : Walk) (spelling : String) :
    (walk.basic spelling).2.atlas.findType? (.bare spelling) = some (walk.basic spelling).1 := by
  have found := findType?_claim walk (.bare spelling)
  rw [basic_eq]
  dsimp only
  split
  · exact found
  · exact (Atlas.Extends.resolve _ _ _).findType? found

theorem Onward.typeNode? {before after : Walk} (onward : before.Onward after) (expr : TypeExpr)
    (id : NodeId) (found : before.atlas.typeNode? expr = some id) :
    after.atlas.typeNode? expr = some id :=
  onward.atlas.findType? found

theorem lists_nil (atlas : Atlas) : Lists atlas [] ∅ :=
  ⟨fun _ mem => (List.not_mem_nil mem).elim, fun name id => by simp⟩

variable (lookup : Lookup) {expand : String → String → Walk → NodeId × Walk}
  (expands : ∀ package name walk, Onward walk (expand package name walk).2)

include expands

/-! ## Methods -/

theorem found_method (identity : Name) (expr : MethodExpr) (walk : Walk) :
    (method lookup expand identity expr walk).2.atlas.findType? identity =
      some (method lookup expand identity expr walk).1 := by
  rw [method_eq_node]
  exact (onward_setMethodComments _ _ _).atlas.findType?
    (findType?_node (onward_describe lookup expands (.func expr.signature) identity) walk identity)

variable (ownerOf : MethodExpr → Name) (methods : List MethodExpr) (known : Table NodeId)
  (walk : Walk)

/-- The identity of each method leads to a node. -/
theorem known_methodsOf : ∀ method ∈ methods, ∃ id,
    (methodsOf lookup expand ownerOf methods known walk).2.atlas.findType?
      (methodName (ownerOf method) method.name) = some id := by
  induction methods generalizing known walk with
  | nil => exact List.forall_mem_nil _
  | cons first rest ih =>
    obtain ⟨called, pos, signature⟩ := first
    exact List.forall_mem_cons.2 ⟨⟨_, (carries_onward.methodsOf lookup expands ownerOf rest _
      _).atlas.findType? (found_method lookup expands _ ⟨called, pos, signature⟩ walk)⟩, ih _ _⟩

/-- An entry is the node of a method of that name, or was known before. -/
theorem get?_methodsOf {name : String} {id : NodeId}
    (found : (methodsOf lookup expand ownerOf methods known walk).1.get? name = some id) :
    (∃ method ∈ methods, method.name = name ∧
      (methodsOf lookup expand ownerOf methods known walk).2.atlas.findType?
        (methodName (ownerOf method) method.name) = some id) ∨
      known.get? name = some id := by
  induction methods generalizing known walk with
  | nil => exact .inr found
  | cons first rest ih =>
    obtain ⟨called, pos, signature⟩ := first
    rcases ih _ _ found with ⟨method, mem, there⟩ | earlier
    · exact .inl ⟨method, List.mem_cons_of_mem _ mem, there⟩
    · rw [Table.get?_insert] at earlier
      split at earlier
      · next same =>
        cases earlier
        refine .inl ⟨⟨called, pos, signature⟩, List.mem_cons_self, same.symm, ?_⟩
        exact (carries_onward.methodsOf lookup expands ownerOf rest _ _).atlas.findType?
          (found_method lookup expands _ ⟨called, pos, signature⟩ walk)
      · exact .inr earlier

omit expands in
theorem not_mem_of_get?_methodsOf {name : String}
    (none : (methodsOf lookup expand ownerOf methods known walk).1.get? name = none) :
    name ∉ methods.map MethodExpr.name ∧ known.get? name = Option.none := by
  induction methods generalizing known walk with
  | nil => exact ⟨List.not_mem_nil, none⟩
  | cons first rest ih =>
    obtain ⟨called, pos, signature⟩ := first
    obtain ⟨others, earlier⟩ := ih _ _ none
    rw [Table.get?_insert] at earlier
    split at earlier
    · cases earlier
    · next differs => exact ⟨List.not_mem_cons_of_ne_of_not_mem differs others, earlier⟩

/-- Where the methods have different names, the table leads exactly to their nodes. -/
theorem lists_methodsOf (distinct : (methods.map MethodExpr.name).Nodup) :
    Lists (methodsOf lookup expand ownerOf methods ∅ walk).2.atlas
      (methods.map fun method => (methodName (ownerOf method) method.name, method))
      (methodsOf lookup expand ownerOf methods ∅ walk).1 where
  known := List.forall_mem_map.2 (known_methodsOf lookup expands ownerOf methods ∅ walk)
  exact name id := by
    constructor
    · intro found
      rcases get?_methodsOf lookup expands ownerOf methods ∅ walk found with
        ⟨method, mem, there⟩ | earlier
      · exact ⟨_, List.mem_map_of_mem mem, there⟩
      · cases earlier
    · rintro ⟨entry, listed, named, there⟩
      obtain ⟨method, mem, rfl⟩ := List.mem_map.1 listed
      cases found : (methodsOf lookup expand ownerOf methods ∅ walk).1.get? name with
      | none =>
        have missing := (not_mem_of_get?_methodsOf lookup ownerOf methods ∅ walk found).1
        exact absurd (named ▸ List.mem_map_of_mem mem) missing
      | some other =>
        rcases get?_methodsOf lookup expands ownerOf methods ∅ walk found with
          ⟨method', mem', named', there'⟩ | earlier
        · cases List.inj_on_of_nodup_map distinct mem mem' (named.trans named'.symm)
          exact there'.symm.trans there
        · cases earlier

omit ownerOf methods known walk

theorem known_describe (owner : Name) (expr : TypeExpr) (walk : Walk) :
    ∀ entry ∈ expr.required owner, ∃ id,
      (describe lookup expand owner expr walk).2.atlas.findType? entry.1 = some id := by
  cases expr with
  | interface methods =>
    exact List.forall_mem_map.2 (known_methodsOf lookup expands _ methods ∅ walk)
  | _ => exact List.forall_mem_nil _

theorem lists_describe {owner : Name} {expr : TypeExpr}
    (distinct : ((expr.required owner).map fun entry => entry.2.name).Nodup) (walk : Walk) :
    Lists (describe lookup expand owner expr walk).2.atlas (expr.required owner)
      (describe lookup expand owner expr walk).1.2 := by
  cases expr with
  | interface methods =>
    rw [TypeExpr.required, List.map_map] at distinct
    exact lists_methodsOf lookup expands _ methods walk distinct
  | _ => exact lists_nil _

/-! ## Types -/

variable (finds : ∀ package name walk,
  (expand package name walk).2.atlas.findType? { package, name } =
    some (expand package name walk).1)

include finds

theorem found_type (expr : TypeExpr) (walk : Walk) :
    (type lookup expand none expr walk).2.atlas.typeNode? expr =
      some (type lookup expand none expr walk).1 := by
  by_cases composite : expr.isComposite = true
  · rw [type_eq_node lookup expand none composite]
    exact findType?_node (onward_describe lookup expands expr _) walk _
  · cases expr with
    | basic spelling => exact findType?_basic walk spelling
    | named package name => exact finds package name walk
    | _ => exact absurd rfl composite

theorem found_types (exprs : List TypeExpr) (walk : Walk) :
    exprs.mapM (types lookup expand exprs walk).2.atlas.typeNode? =
      some (types lookup expand exprs walk).1 := by
  induction exprs generalizing walk with
  | nil => rfl
  | cons first rest ih =>
    have here := (onward_types lookup expands rest _).typeNode? first _
      (found_type lookup expands finds first walk)
    simp only [types, List.mapM_cons, here, ih]
    rfl

theorem found_members (fields : List FieldExpr) (walk : Walk) :
    fields.mapM (FieldExpr.member? (members lookup expand fields walk).2.atlas.typeNode?) =
      some ((members lookup expand fields walk).1.map Member.bare) := by
  induction fields generalizing walk with
  | nil => rfl
  | cons first rest ih =>
    obtain ⟨name, embedded, tag, type, pos⟩ := first
    have here := (onward_members lookup expands rest _).typeNode? type _
      (found_type lookup expands finds type walk)
    simp only [members, List.mapM_cons, FieldExpr.member?, here, ih]
    rfl

theorem found_signatureOf (signature : SignatureExpr) (walk : Walk) :
    signature.signature? (signatureOf lookup expand signature walk).2.atlas.typeNode? =
      some (signatureOf lookup expand signature walk).1.bare := by
  obtain ⟨receiver, params, results, variadic⟩ := signature
  have onward := onward_types lookup expands results (types lookup expand params walk).2
  have onward' := onward_receiverOf lookup expands receiver
    (types lookup expand results (types lookup expand params walk).2).2
  have params := mapM_of_mapM (onward.trans onward').typeNode?
    (found_types lookup expands finds params walk)
  have results := mapM_of_mapM onward'.typeNode? (found_types lookup expands finds results _)
  have own (walk : Walk) : receiver? (receiverOf lookup expand receiver walk).2.atlas.typeNode?
      receiver = some (receiverOf lookup expand receiver walk).1 := by
    cases receiver with
    | none => rfl
    | some receiver =>
      exact congrArg (Option.map some) (found_type lookup expands finds receiver walk)
  simp only [SignatureExpr.signature?, signatureOf, params, results, own]
  rfl

/-- The kind that is found for a type is the one it should have. -/
theorem kind?_describe (owner : Name) {expr : TypeExpr} (composite : expr.isComposite = true)
    (walk : Walk) : expr.kind? (describe lookup expand owner expr walk).2.atlas.typeNode? =
      some (describe lookup expand owner expr walk).1.1.bare := by
  have found := found_type lookup expands finds
  cases expr with
  | basic spelling | named package name => cases composite
  | interface methods | other description => rfl
  | pointer elem => exact congrArg (Option.map Kind.pointer) (found elem walk)
  | slice elem => exact congrArg (Option.map Kind.slice) (found elem walk)
  | array length elem => exact congrArg (Option.map Kind.array) (found elem walk)
  | chan direction elem => exact congrArg (Option.map Kind.chan) (found elem walk)
  | map key elem =>
    have ofElem := (onward_type lookup expands none key _).typeNode? elem _ (found elem walk)
    simp only [TypeExpr.kind?, describe, found key, ofElem]
    rfl
  | struct fields =>
    exact congrArg (Option.map Kind.struct) (found_members lookup expands finds fields walk)
  | func signature =>
    exact congrArg (Option.map Kind.func) (found_signatureOf lookup expands finds signature walk)

omit expands finds

/-! ## Named types -/

theorem named_fst (lookup : Lookup) (depth : Nat) (package name : String) (walk : Walk) :
    (named lookup depth package name walk).1 = (walk.claim { package, name }).1.1 := by
  cases depth with
  | zero => rfl
  | succ depth =>
    rw [named]
    rcases walk.claim { package, name } with ⟨⟨id, fresh⟩, claimed⟩
    cases fresh with
    | false => rfl
    | true =>
      dsimp only
      rw [if_pos rfl]
      split <;> rfl

/-- The name of a named type leads to its node. -/
theorem findType?_named (lookup : Lookup) (depth : Nat) (package name : String) (walk : Walk) :
    (named lookup depth package name walk).2.atlas.findType? { package, name } =
      some (named lookup depth package name walk).1 := by
  have again := @claim_claimed walk (walk.claim { package, name }).2 { package, name }
    (walk.claim { package, name }).1 rfl
  have same : named lookup depth package name (walk.claim { package, name }).2 =
      named lookup depth package name walk := by
    cases depth <;> rw [named, named, again]
  rw [named_fst, ← same]
  exact (onward_named lookup depth package name _).atlas.findType? (findType?_claim walk _)

/-- The name of a type leads to the node that is made for it, in the middle of a walk too. -/
theorem findType?_type (lookup : Lookup) (depth : Nat) (expr : TypeExpr) (walk : Walk) :
    (walk.type lookup (named lookup depth) none expr).2.atlas.findType? expr.canonicalName =
      some (walk.type lookup (named lookup depth) none expr).1 :=
  found_type lookup (onward_named lookup depth) (findType?_named lookup depth) expr walk

theorem findType?_addType (lookup : Lookup) (expr : TypeExpr) (walk : Walk) :
    (walk.addType lookup none expr).2.atlas.findType? expr.canonicalName =
      some (walk.addType lookup none expr).1 :=
  findType?_type lookup (depthBound lookup) expr walk

end GoAtlas.Walk
