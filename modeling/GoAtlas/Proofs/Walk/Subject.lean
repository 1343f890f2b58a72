import GoAtlas.Proofs.Atlas.View
import GoAtlas.Proofs.TypeExpr.Erasure
import GoAtlas.Walk
import Mathlib.Data.List.Nodup

/-!
# What a node should be

A node of the type graph stands for a subject: a type, or a method under its
identity. This module says what a subject's node should be in terms of the
expressions alone. `Subject.kind?` is the kind, over the nodes of the parts;
`Subject.methods` lists the methods with their identities. A named type takes
both from its definition.

`Reached` are the subjects that walked types lead to, through parts, methods and
definitions. The structure a named type takes over is not itself among them:
only its parts are. `Unambiguous` says that names tell reached subjects apart.
-/

namespace GoAtlas

/-! ## Parts, kinds and methods of expressions -/

/-- The types a signature is made of. -/
def SignatureExpr.parts (signature : SignatureExpr) : List TypeExpr :=
  signature.params ++ signature.results ++ signature.receiver.toList

theorem SignatureExpr.mem_parts {signature : SignatureExpr} {expr : TypeExpr} :
    expr ∈ signature.parts ↔
      expr ∈ signature.params ∨ expr ∈ signature.results ∨ expr ∈ signature.receiver.toList := by
  simp only [SignatureExpr.parts, List.mem_append, or_assoc]

/-- The types a type is made of. The methods of an interface are no parts. -/
def TypeExpr.parts : TypeExpr → List TypeExpr
  | .pointer elem | .slice elem | .array _ elem | .chan _ elem => [elem]
  | .map key elem => [key, elem]
  | .struct fields => fields.map FieldExpr.type
  | .func signature => signature.parts
  | .basic _ | .named _ _ | .interface _ | .other _ => []

/-- The methods an interface requires, with their identities. A method that was
declared in another interface keeps that one as its owner. -/
def TypeExpr.required (owner : Name) : TypeExpr → List (Name × MethodExpr)
  | .interface methods => methods.map fun method =>
    (methodName (method.declaringInterface?.getD owner) method.name, method)
  | _ => []

theorem TypeExpr.required_path {owner : Name} {expr : TypeExpr} {entry : Name × MethodExpr}
    (mem : entry ∈ expr.required owner) : ∃ owner method, entry.1 = methodName owner method := by
  cases expr with
  | interface methods =>
    obtain ⟨method, -, rfl⟩ := List.mem_map.1 mem
    exact ⟨_, _, rfl⟩
  | _ => cases mem

section Kinds

variable (node : TypeExpr → Option NodeId)

/-- The field over the node of its type. -/
def FieldExpr.member? (field : FieldExpr) : Option Member :=
  (node field.type).map fun type =>
    { name := field.name, embedded := field.embedded, tag := field.tag, comments := [], type }

/-- The receiver over its node. -/
def receiver? : Option TypeExpr → Option (Option NodeId)
  | none => some none
  | some receiver => (node receiver).map some

/-- The signature over the nodes of its types. -/
def SignatureExpr.signature? (signature : SignatureExpr) : Option Signature := do
  let parameters ← signature.params.mapM node
  let results ← signature.results.mapM node
  let receiver ← receiver? node signature.receiver
  return { receiver, parameters, results, variadic := signature.variadic, comments := [] }

/-- The kind of a type over the nodes of its parts. A named type without
definition is unsupported, and so is a primitive that is not registered. -/
def TypeExpr.kind? : TypeExpr → Option Kind
  | .basic name => some (if Primitive.isRegistered name then .primitive else .unsupported)
  | .named _ _ | .other _ => some .unsupported
  | .pointer elem => (node elem).map .pointer
  | .slice elem => (node elem).map .slice
  | .array _ elem => (node elem).map .array
  | .chan _ elem => (node elem).map .chan
  | .map key elem => do return .map (← node key) (← node elem)
  | .struct fields => (fields.mapM (FieldExpr.member? node)).map .struct
  | .func signature => (signature.signature? node).map .func
  | .interface _ => some .interface

end Kinds

/-! ## Definitions -/

namespace Definitions

variable (definitions : Definitions)

/-- The definition of a type, if it is a named type that has one. -/
def of? : TypeExpr → Option Definition
  | .named package name => definitions.find? package name
  | _ => none

/-- The types a type is made of, looking through a definition. -/
def parts (type : TypeExpr) : List TypeExpr :=
  match definitions.of? type with
  | some definition =>
    if definition.underlying.isAliased then [definition.underlying]
    else definition.underlying.parts
  | none => type.parts

/-- The methods of a type with their identities. A named interface has the
methods it requires, any other named type the methods declared on it. -/
def methods (type : TypeExpr) : List (Name × MethodExpr) :=
  match definitions.of? type with
  | some definition =>
    let required := definition.underlying.required type.canonicalName
    if required.isEmpty then
      definition.methods.map fun method => (methodName type.canonicalName method.name, method)
    else required
  | none => type.required type.canonicalName

/-- The kind of a type. A named type over a named type, a primitive, a map or a
slice is an alias of it, any other takes over the kind of its structure. -/
def kind? (node : TypeExpr → Option NodeId) (type : TypeExpr) : Option Kind :=
  match definitions.of? type with
  | some definition =>
    if definition.underlying.isAliased then (node definition.underlying).map .aliasOf
    else definition.underlying.kind? node
  | none => type.kind? node

end Definitions

/-! ## Subjects -/

/-- What a node stands for. -/
inductive Subject where
  | type (expr : TypeExpr)
  | method (identity : Name) (expr : MethodExpr)

namespace Subject

/-- The name the node of a subject has. -/
def name : Subject → Name
  | .type expr => expr.canonicalName
  | .method identity _ => identity

variable (definitions : Definitions)

/-- The types a subject is made of. -/
def parts : Subject → List TypeExpr
  | .type expr => definitions.parts expr
  | .method _ expr => expr.signature.parts

/-- The methods of a subject with their identities. -/
def methods : Subject → List (Name × MethodExpr)
  | .type expr => definitions.methods expr
  | .method _ _ => []

/-- The kind of a subject over the nodes of its parts. -/
def kind? (node : TypeExpr → Option NodeId) : Subject → Option Kind
  | .type expr => definitions.kind? node expr
  | .method _ expr => (expr.signature.signature? node).map .func

/-- Two subjects are the same but for positions. -/
def Agrees : Subject → Subject → Prop
  | .type a, .type b => a.unplaced = b.unplaced
  | .method _ a, .method _ b => a.signature.unplaced = b.signature.unplaced
  | _, _ => False

end Subject

/-- The subjects that walked types lead to. -/
inductive Reached (definitions : Definitions) (walked : List TypeExpr) : Subject → Prop
  | walked {type : TypeExpr} : type ∈ walked → Reached definitions walked (.type type)
  | part {subject : Subject} {type : TypeExpr} : Reached definitions walked subject →
      type ∈ subject.parts definitions → Reached definitions walked (.type type)
  | method {subject : Subject} {entry : Name × MethodExpr} : Reached definitions walked subject →
      entry ∈ subject.methods definitions →
      Reached definitions walked (.method entry.1 entry.2)

variable {definitions : Definitions} {walked : List TypeExpr} {subject other : Subject}
  {subjects : List Subject}

/-- Subjects closed under parts and methods hold all that is reached from them. -/
theorem Reached.mem_of_closed (starts : ∀ type ∈ walked, .type type ∈ subjects)
    (parts : ∀ subject ∈ subjects, ∀ type ∈ subject.parts definitions, .type type ∈ subjects)
    (methods : ∀ subject ∈ subjects, ∀ entry ∈ subject.methods definitions,
      .method entry.1 entry.2 ∈ subjects)
    (reached : Reached definitions walked subject) : subject ∈ subjects := by
  induction reached with
  | walked mem => exact starts _ mem
  | part _ mem ih => exact parts _ ih _ mem
  | method _ mem ih => exact methods _ ih _ mem

/-- Names tell apart what is reached, although a type may have several methods of one
name. -/
structure WellNamed (definitions : Definitions) (walked : List TypeExpr) : Prop where
  /-- Types with one canonical name are the same but for positions. -/
  types : ∀ s t, Reached definitions walked (.type s) → Reached definitions walked (.type t) →
    s.canonicalName = t.canonicalName → s.unplaced = t.unplaced
  /-- Only a primitive is named like a registered primitive. -/
  primitives : ∀ t, Reached definitions walked (.type t) → (∀ name, t ≠ .basic name) →
    Atlas.primitive? t.canonicalName = none
  /-- Methods with one identity have one signature but for positions. -/
  methods : ∀ identity m n, Reached definitions walked (.method identity m) →
    Reached definitions walked (.method identity n) → m.signature.unplaced = n.signature.unplaced
  /-- No type is named like a method. -/
  apart : ∀ t identity m, Reached definitions walked (.type t) →
    Reached definitions walked (.method identity m) → t.canonicalName ≠ identity

/-- Names tell apart what is reached from the walked types. -/
structure Unambiguous (definitions : Definitions) (walked : List TypeExpr) : Prop
    extends WellNamed definitions walked where
  /-- The methods of a type have different names. -/
  distinct : ∀ t, Reached definitions walked (.type t) →
    ((definitions.methods t).map fun entry => entry.2.name).Nodup

/-- Subjects with different names tell apart what is reached among them. -/
theorem wellNamed_of_mem
    (mem : ∀ {subject}, Reached definitions walked subject → subject ∈ subjects)
    (names : (subjects.map Subject.name).Nodup)
    (primitives : ∀ subject ∈ subjects, (∀ name, subject ≠ .type (.basic name)) →
      Atlas.primitive? subject.name = none) :
    WellNamed definitions walked := by
  have same : ∀ {subject other}, Reached definitions walked subject →
      Reached definitions walked other → subject.name = other.name → subject = other :=
    fun reached also named => List.inj_on_of_nodup_map names (mem reached) (mem also) named
  constructor
  · intro s t reached also named
    cases same reached also named
    rfl
  · intro t reached noBasic
    refine primitives _ (mem reached) fun name eq => ?_
    cases eq
    exact noBasic name rfl
  · intro identity m n reached also
    cases same reached also rfl
    rfl
  · intro t identity m reached also named
    cases same reached also named

/-- Finitely many subjects with different names, closed under parts and methods,
are unambiguous. -/
theorem unambiguous_of_closed (subjects : List Subject)
    (starts : ∀ type ∈ walked, .type type ∈ subjects)
    (parts : ∀ subject ∈ subjects, ∀ type ∈ subject.parts definitions, .type type ∈ subjects)
    (methods : ∀ subject ∈ subjects, ∀ entry ∈ subject.methods definitions,
      .method entry.1 entry.2 ∈ subjects)
    (names : (subjects.map Subject.name).Nodup)
    (primitives : ∀ subject ∈ subjects, (∀ name, subject ≠ .type (.basic name)) →
      Atlas.primitive? subject.name = none)
    (distinct : ∀ subject ∈ subjects,
      ((subject.methods definitions).map fun entry => entry.2.name).Nodup) :
    Unambiguous definitions walked := by
  have mem : ∀ {subject}, Reached definitions walked subject → subject ∈ subjects :=
    fun reached => reached.mem_of_closed starts parts methods
  exact ⟨wellNamed_of_mem mem names primitives, fun t reached => distinct _ (mem reached)⟩

/-! ## Shown subjects -/

/-- The node a type has in the atlas. -/
def Atlas.typeNode? (atlas : Atlas) (type : TypeExpr) : Option NodeId :=
  atlas.findType? type.canonicalName

/-- The table leads exactly from the names of the methods to their nodes. -/
structure Lists (atlas : Atlas) (methods : List (Name × MethodExpr)) (table : Table NodeId) :
    Prop where
  known : ∀ entry ∈ methods, ∃ id, atlas.findType? entry.1 = some id
  exact : ∀ name id, table.get? name = some id ↔
    ∃ entry ∈ methods, entry.2.name = name ∧ atlas.findType? entry.1 = some id

/-- The atlas has a node for the subject, and it is what it should be. -/
def Shown (definitions : Definitions) (atlas : Atlas) (subject : Subject) : Prop :=
  ∃ id node, atlas.view subject.name = some (id, node) ∧
    subject.kind? definitions atlas.typeNode? = some node.kind ∧
    Lists atlas (subject.methods definitions) node.methods

/-- The kind and the parts of a subject are those of an expression, or it is an alias. -/
theorem Subject.shape (definitions : Definitions) (subject : Subject) :
    (∃ expr : TypeExpr, subject.parts definitions = expr.parts ∧
      ∀ node, subject.kind? definitions node = expr.kind? node) ∨
    ∃ expr, subject.parts definitions = [expr] ∧
      ∀ node, subject.kind? definitions node = (node expr).map .aliasOf := by
  cases subject with
  | method identity expr => exact .inl ⟨.func expr.signature, rfl, fun _ => rfl⟩
  | type expr =>
    simp only [Subject.kind?, Definitions.kind?, Subject.parts, Definitions.parts]
    split
    · split
      · exact .inr ⟨_, rfl, fun _ => rfl⟩
      · exact .inl ⟨_, rfl, fun _ => rfl⟩
    · exact .inl ⟨_, rfl, fun _ => rfl⟩

/-! ## A kind that is shown stays shown -/

theorem mapM_eq_some_iff {α β : Type} {f : α → Option β} {as : List α} {bs : List β} :
    as.mapM f = some bs ↔ as.map f = bs.map some := by
  induction as generalizing bs with
  | nil => cases bs <;> simp
  | cons a as ih =>
    rw [List.mapM_cons, Option.bind_eq_bind, Option.bind_eq_some_iff, List.map_cons]
    constructor
    · rintro ⟨b, here, rest⟩
      obtain ⟨bs, others, eq⟩ := Option.bind_eq_some_iff.1 rest
      cases eq
      rw [here, ih.1 others]
      rfl
    · intro eq
      obtain ⟨b, bs, rfl, here, others⟩ := List.map_eq_cons_iff.1 eq.symm
      exact ⟨b, here.symm, by rw [ih.2 others.symm]; rfl⟩

theorem mapM_of_mapM {α β : Type} {f g : α → Option β} (h : ∀ a b, f a = some b → g a = some b)
    {as : List α} {bs : List β} (eq : as.mapM f = some bs) : as.mapM g = some bs := by
  rw [mapM_eq_some_iff] at eq ⊢
  rw [← eq]
  refine List.map_congr_left fun a mem => ?_
  obtain ⟨b, -, found⟩ := List.mem_map.1 (eq ▸ List.mem_map_of_mem mem)
  exact (h a b found.symm).trans found

section More

variable {node more : TypeExpr → Option NodeId}
  (h : ∀ type id, node type = some id → more type = some id)

include h

theorem FieldExpr.member?_of_member? (field : FieldExpr) (member : Member)
    (eq : field.member? node = some member) : field.member? more = some member := by
  obtain ⟨id, found, rfl⟩ := Option.map_eq_some_iff.1 eq
  rw [FieldExpr.member?, h _ _ found]
  rfl

theorem receiver?_of_receiver? {receiver : Option TypeExpr} {id : Option NodeId}
    (eq : receiver? node receiver = some id) : receiver? more receiver = some id := by
  cases receiver with
  | none => exact eq
  | some receiver =>
    obtain ⟨id, found, rfl⟩ := Option.map_eq_some_iff.1 eq
    rw [receiver?, h _ _ found]
    rfl

/-- A signature over known nodes is not changed by knowing more. -/
theorem SignatureExpr.signature?_of_signature? {expr : SignatureExpr} {signature : Signature}
    (eq : expr.signature? node = some signature) : expr.signature? more = some signature := by
  obtain ⟨parameters, hp, eq⟩ := Option.bind_eq_some_iff.1 eq
  obtain ⟨results, hr, eq⟩ := Option.bind_eq_some_iff.1 eq
  obtain ⟨receiver, hv, eq⟩ := Option.bind_eq_some_iff.1 eq
  simp only [SignatureExpr.signature?, mapM_of_mapM h hp, mapM_of_mapM h hr,
    receiver?_of_receiver? h hv]
  exact eq

theorem TypeExpr.kind?_of_kind? {type : TypeExpr} {kind : Kind}
    (eq : type.kind? node = some kind) : type.kind? more = some kind := by
  have elem : ∀ {expr : TypeExpr} {make : NodeId → Kind}, (node expr).map make = some kind →
      (more expr).map make = some kind := by
    intro expr make eq
    obtain ⟨id, found, rfl⟩ := Option.map_eq_some_iff.1 eq
    rw [h _ _ found]
    rfl
  cases type with
  | basic name | named package name | interface methods | other description => exact eq
  | pointer expr | slice expr | array length expr | chan direction expr => exact elem eq
  | map key expr =>
    obtain ⟨k, hk, eq⟩ := Option.bind_eq_some_iff.1 eq
    obtain ⟨e, he, eq⟩ := Option.bind_eq_some_iff.1 eq
    simp only [TypeExpr.kind?, h _ _ hk, h _ _ he]
    exact eq
  | struct fields =>
    obtain ⟨members, found, rfl⟩ := Option.map_eq_some_iff.1 eq
    rw [TypeExpr.kind?, mapM_of_mapM (FieldExpr.member?_of_member? h) found]
    rfl
  | func signature =>
    obtain ⟨signature, found, rfl⟩ := Option.map_eq_some_iff.1 eq
    rw [TypeExpr.kind?, SignatureExpr.signature?_of_signature? h found]
    rfl

/-- The kind of a subject over known nodes is not changed by knowing more. -/
theorem Subject.kind?_of_kind? {kind : Kind} (eq : subject.kind? definitions node = some kind) :
    subject.kind? definitions more = some kind := by
  obtain ⟨expr, -, shaped⟩ | ⟨expr, -, shaped⟩ := subject.shape definitions
  all_goals rw [shaped] at eq ⊢
  · exact TypeExpr.kind?_of_kind? h eq
  · obtain ⟨id, found, rfl⟩ := Option.map_eq_some_iff.1 eq
    rw [h _ _ found]
    rfl

end More

theorem TypeExpr.kind?_known {node : TypeExpr → Option NodeId} {type : TypeExpr} {kind : Kind}
    (eq : type.kind? node = some kind) : kind.isUnknown = false := by
  cases type with
  | basic name =>
    cases eq
    split <;> rfl
  | named package name | interface methods | other description =>
    cases eq
    rfl
  | map key expr =>
    obtain ⟨k, -, eq⟩ := Option.bind_eq_some_iff.1 eq
    obtain ⟨e, -, eq⟩ := Option.bind_eq_some_iff.1 eq
    cases eq
    rfl
  | pointer expr | slice expr | array length expr | chan direction expr | struct fields
  | func signature =>
    obtain ⟨_, -, rfl⟩ := Option.map_eq_some_iff.1 eq
    rfl

/-- No subject is left a marker. -/
theorem Subject.kind?_known {node : TypeExpr → Option NodeId} {kind : Kind}
    (eq : subject.kind? definitions node = some kind) : kind.isUnknown = false := by
  obtain ⟨expr, -, shaped⟩ | ⟨expr, -, shaped⟩ := subject.shape definitions
  all_goals rw [shaped] at eq
  · exact TypeExpr.kind?_known eq
  · obtain ⟨_, -, rfl⟩ := Option.map_eq_some_iff.1 eq
    rfl

section Known

variable {node : TypeExpr → Option NodeId}

/-- A signature refers to the nodes of its parts, in order. -/
theorem SignatureExpr.map_parts {expr : SignatureExpr} {signature : Signature}
    (eq : expr.signature? node = some signature) :
    expr.parts.map node = signature.refs.map some := by
  obtain ⟨parameters, hp, eq⟩ := Option.bind_eq_some_iff.1 eq
  obtain ⟨results, hr, eq⟩ := Option.bind_eq_some_iff.1 eq
  obtain ⟨receiver, hv, eq⟩ := Option.bind_eq_some_iff.1 eq
  cases eq
  have last : expr.receiver.toList.map node = receiver.toList.map some := by
    cases own : expr.receiver with
    | none =>
      rw [own] at hv
      cases hv
      rfl
    | some type =>
      rw [own] at hv
      obtain ⟨id, found, rfl⟩ := Option.map_eq_some_iff.1 hv
      exact congrArg (fun node => [node]) found
  rw [SignatureExpr.parts, Signature.refs, List.map_append, List.map_append, List.map_append,
    List.map_append, mapM_eq_some_iff.1 hp, mapM_eq_some_iff.1 hr, last]

/-- A kind refers to the nodes of the parts, in order. -/
theorem TypeExpr.map_parts {expr : TypeExpr} {kind : Kind} (eq : expr.kind? node = some kind) :
    expr.parts.map node = kind.refs.map some := by
  cases expr with
  | basic name =>
    cases eq
    split <;> rfl
  | named package name | interface methods | other description =>
    cases eq
    rfl
  | pointer elem | slice elem | array length elem | chan direction elem =>
    obtain ⟨id, found, rfl⟩ := Option.map_eq_some_iff.1 eq
    exact congrArg (fun node => [node]) found
  | map key elem =>
    obtain ⟨k, hk, eq⟩ := Option.bind_eq_some_iff.1 eq
    obtain ⟨e, he, eq⟩ := Option.bind_eq_some_iff.1 eq
    cases eq
    rw [TypeExpr.parts, List.map_cons, List.map_singleton, hk, he]
    rfl
  | struct fields =>
    obtain ⟨members, found, rfl⟩ := Option.map_eq_some_iff.1 eq
    have types := congrArg (List.map (Option.map Member.type)) (mapM_eq_some_iff.1 found)
    simpa [TypeExpr.parts, Kind.refs, FieldExpr.member?, Function.comp_def] using types
  | func signature =>
    obtain ⟨_, found, rfl⟩ := Option.map_eq_some_iff.1 eq
    exact SignatureExpr.map_parts found

theorem known_of_map {parts : List TypeExpr} {refs : List NodeId}
    (eq : parts.map node = refs.map some) : ∀ part ∈ parts, ∃ id, node part = some id := by
  intro part mem
  obtain ⟨id, -, found⟩ := List.mem_map.1 (eq ▸ List.mem_map_of_mem mem)
  exact ⟨id, found.symm⟩

theorem Subject.map_parts {kind : Kind} (eq : subject.kind? definitions node = some kind) :
    (subject.parts definitions).map node = kind.refs.map some := by
  obtain ⟨expr, parts, shaped⟩ | ⟨expr, parts, shaped⟩ := subject.shape definitions
  all_goals rw [shaped] at eq
  · exact parts ▸ TypeExpr.map_parts eq
  · obtain ⟨id, found, rfl⟩ := Option.map_eq_some_iff.1 eq
    rw [parts, List.map_singleton, found]
    rfl

/-- Where a subject has a kind its parts have nodes. -/
theorem Subject.parts_known {kind : Kind}
    (eq : subject.kind? definitions node = some kind) :
    ∀ part ∈ subject.parts definitions, ∃ id, node part = some id :=
  known_of_map (Subject.map_parts eq)

end Known

theorem Lists.grows {before after : Atlas} (consistent : before.Consistent)
    (grows : before.Grows after) {methods : List (Name × MethodExpr)} {table : Table NodeId}
    (h : Lists before methods table) : Lists after methods table where
  known entry mem := by
    obtain ⟨id, found⟩ := h.known entry mem
    exact ⟨id, grows.findType? consistent found⟩
  exact name id := by
    rw [h.exact]
    constructor
    · rintro ⟨entry, mem, named, found⟩
      exact ⟨entry, mem, named, grows.findType? consistent found⟩
    · rintro ⟨entry, mem, named, found⟩
      obtain ⟨old, known⟩ := h.known entry mem
      rw [grows.findType? consistent known] at found
      exact ⟨entry, mem, named, found ▸ known⟩

theorem Atlas.Grows.typeNode? {before after : Atlas} (grows : before.Grows after)
    (consistent : before.Consistent) (type : TypeExpr) (id : NodeId)
    (found : before.typeNode? type = some id) : after.typeNode? type = some id :=
  grows.findType? consistent found

/-- What is shown stays shown while the atlas grows. -/
theorem Shown.grows {before after : Atlas} (consistent : before.Consistent)
    (grows : before.Grows after) (h : Shown definitions before subject) :
    Shown definitions after subject := by
  obtain ⟨id, node, found, kind, lists⟩ := h
  refine ⟨id, node, grows _ _ found, ?_, lists.grows consistent grows⟩
  exact Subject.kind?_of_kind? (grows.typeNode? consistent) kind

/-! ## Positions play no part -/

theorem Definitions.of?_unplaced (definitions : Definitions) (type : TypeExpr) :
    definitions.of? type.unplaced = definitions.of? type := by
  cases type <;> rfl

section Unplaced

variable {node : TypeExpr → Option NodeId} (h : ∀ type : TypeExpr, node type.unplaced = node type)

include h

theorem mapM_unplacedList (types : List TypeExpr) :
    (paredList false types).mapM node = types.mapM node := by
  induction types with
  | nil => rfl
  | cons first rest ih => rw [paredList, List.mapM_cons, List.mapM_cons, h, ih]

theorem mapM_unplacedFields : ∀ fields : List FieldExpr,
    (paredFields false fields).mapM (FieldExpr.member? node) = fields.mapM (FieldExpr.member? node)
  | [] => rfl
  | ⟨name, embedded, tag, type, pos⟩ :: rest => by
    rw [paredFields, List.mapM_cons, List.mapM_cons, mapM_unplacedFields rest]
    simp only [FieldExpr.pared, FieldExpr.member?, h, Bool.false_and, Bool.false_eq_true, if_false]

theorem SignatureExpr.signature?_unplaced (expr : SignatureExpr) :
    expr.unplaced.signature? node = expr.signature? node := by
  obtain ⟨receiver, params, results, variadic⟩ := expr
  have same : receiver? node (paredReceiver false receiver) = receiver? node receiver := by
    cases receiver with
    | none => rfl
    | some receiver => rw [paredReceiver, receiver?, receiver?, h]
  simp only [SignatureExpr.pared, SignatureExpr.signature?, mapM_unplacedList h,
    Bool.false_eq_true, if_false, same]

theorem TypeExpr.kind?_unplaced (type : TypeExpr) : type.unplaced.kind? node = type.kind? node := by
  cases type with
  | basic name | named package name | interface methods | other description => rfl
  | pointer expr | slice expr | array length expr | chan direction expr =>
    simp only [TypeExpr.pared, TypeExpr.kind?, h]
  | map key expr => simp only [TypeExpr.pared, TypeExpr.kind?, h]
  | struct fields => simp only [TypeExpr.pared, TypeExpr.kind?, mapM_unplacedFields h]
  | func signature =>
    simp only [TypeExpr.pared, TypeExpr.kind?, SignatureExpr.signature?_unplaced h]

theorem Definitions.kind?_unplaced (definitions : Definitions) (type : TypeExpr) :
    definitions.kind? node type.unplaced = definitions.kind? node type := by
  simp only [Definitions.kind?, Definitions.of?_unplaced, TypeExpr.kind?_unplaced h]

end Unplaced

/-- What counts of a method for the table it is listed in. -/
def listing (entry : Name × MethodExpr) : Name × String :=
  (entry.1, entry.2.name)

theorem MethodExpr.declaringInterface?_unplaced (method : MethodExpr) :
    (method.pared false).declaringInterface? = method.declaringInterface? := by
  obtain ⟨name, pos, receiver, params, results, variadic⟩ := method
  cases receiver with
  | none => rfl
  | some receiver => cases receiver <;> rfl

theorem listing_required_unplaced (owner : Name) (type : TypeExpr) :
    (type.unplaced.required owner).map listing = (type.required owner).map listing := by
  cases type with
  | interface methods =>
    simp only [TypeExpr.pared, TypeExpr.required]
    induction methods with
    | nil => rfl
    | cons first rest ih =>
      have named : (first.pared false).name = first.name := by
        cases first
        rfl
      simp only [paredMethods, List.map_cons, ih, first.declaringInterface?_unplaced, listing,
        named]
  | _ => rfl

theorem Definitions.listing_methods_unplaced (definitions : Definitions) (type : TypeExpr) :
    (definitions.methods type.unplaced).map listing = (definitions.methods type).map listing := by
  simp only [Definitions.methods, Definitions.of?_unplaced, type.canonicalName_pared false]
  cases definitions.of? type with
  | some definition => rfl
  | none => exact listing_required_unplaced _ type

theorem Lists.congr {atlas : Atlas} {methods others : List (Name × MethodExpr)}
    {table : Table NodeId} (same : methods.map listing = others.map listing)
    (h : Lists atlas methods table) : Lists atlas others table := by
  -- each entry of one list has an entry with the same listing in the other
  have twin : ∀ {as bs : List (Name × MethodExpr)}, as.map listing = bs.map listing →
      ∀ entry ∈ as, ∃ other ∈ bs, other.1 = entry.1 ∧ other.2.name = entry.2.name := by
    intro as bs eq entry mem
    have listed : listing entry ∈ bs.map listing := eq ▸ List.mem_map_of_mem mem
    obtain ⟨other, mem, eq⟩ := List.mem_map.1 listed
    exact ⟨other, mem, Prod.mk.inj eq⟩
  constructor
  · intro entry mem
    obtain ⟨other, mem, identity, -⟩ := twin same.symm entry mem
    exact identity ▸ h.known other mem
  · intro name id
    rw [h.exact]
    constructor
    · rintro ⟨entry, mem, named, found⟩
      obtain ⟨other, mem, identity, called⟩ := twin same entry mem
      exact ⟨other, mem, called.trans named, identity ▸ found⟩
    · rintro ⟨entry, mem, named, found⟩
      obtain ⟨other, mem, identity, called⟩ := twin same.symm entry mem
      exact ⟨other, mem, called.trans named, identity ▸ found⟩

theorem Atlas.typeNode?_unplaced (atlas : Atlas) (type : TypeExpr) :
    atlas.typeNode? type.unplaced = atlas.typeNode? type := by
  rw [Atlas.typeNode?, type.canonicalName_pared false]
  rfl

/-- Subjects that agree have in common what does not look at positions. -/
theorem Subject.Agrees.congr {β : Type} {f : Subject → β} (g : SignatureExpr → β)
    (agrees : subject.Agrees other)
    (types : ∀ a : TypeExpr, f (.type a.unplaced) = f (.type a))
    (methods : ∀ identity a, f (.method identity a) = g a.signature)
    (signatures : ∀ a : SignatureExpr, g a.unplaced = g a) :
    f subject = f other := by
  cases subject with
  | type a =>
    cases other with
    | type b =>
      have same : a.unplaced = b.unplaced := agrees
      rw [← types a, same, types b]
    | method identity b => exact agrees.elim
  | method identity a =>
    cases other with
    | type b => exact agrees.elim
    | method identity b =>
      have same : a.signature.unplaced = b.signature.unplaced := agrees
      rw [methods, methods, ← signatures, same, signatures]

/-- A subject is shown where one is that agrees with it. -/
theorem Shown.congr {atlas : Atlas} (named : subject.name = other.name)
    (agrees : subject.Agrees other) (h : Shown definitions atlas subject) :
    Shown definitions atlas other := by
  obtain ⟨id, node, found, kind, lists⟩ := h
  have positions := atlas.typeNode?_unplaced
  refine ⟨id, node, named ▸ found, kind ▸ ?_, lists.congr ?_⟩
  · exact (agrees.congr (fun a => (a.signature? atlas.typeNode?).map .func)
      (definitions.kind?_unplaced positions) (fun _ _ => rfl)
      fun a => congrArg (Option.map _) (a.signature?_unplaced positions)).symm
  · exact agrees.congr (f := fun subject => (subject.methods definitions).map listing)
      (fun _ => []) definitions.listing_methods_unplaced (fun _ _ => rfl) fun _ => rfl

/-- Reached subjects with one name agree. -/
theorem WellNamed.agrees (h : WellNamed definitions walked)
    (reached : Reached definitions walked subject) (also : Reached definitions walked other)
    (named : subject.name = other.name) : subject.Agrees other := by
  cases subject with
  | type a =>
    cases other with
    | type b => exact h.types a b reached also named
    | method identity b => exact h.apart a identity b reached also named
  | method identity a =>
    cases other with
    | type b => exact h.apart b identity a also reached named.symm
    | method other b =>
      cases named
      exact h.methods identity a b reached also

end GoAtlas
