import GoAtlas.Proofs.Walk.Depth

/-!
# A walk ends without a bound

Here the walk is written once more, with named types entered as often as they are
met and no bound on the way down. Nothing in the recursion gets smaller at a named
type, so it is the least solution of its equations in `Option`, and `none` is a
walk that does not end. Each function names the parts that it goes on to
before it does, so that the fixed point holds no places of calls in the text.

It always ends, and with what the walk with a bound gives. The bound enters by
`unentered`: entering a definition leaves fewer of them to enter, and within a
definition the walk follows the expression. So the laws below go by the depth, and
by the expression at each depth.
-/

namespace GoAtlas.Walk

namespace Unbounded

variable (lookup : Lookup)

mutual

/-- The node of a type. A type that is neither named nor basic goes under
`useName` when one is given. -/
def type (useName : Option Name) (expr : TypeExpr) (walk : Walk) : Option (NodeId × Walk) :=
  let named : String → String → Walk → Option (NodeId × Walk) := by apply named
  let composite : Name → TypeExpr → Walk → Option (NodeId × Walk) := by apply composite
  match expr with
  | .basic name => some (walk.basic name)
  | .named package name => named package name walk
  | expr => composite (useName.getD expr.canonicalName) expr walk
partial_fixpoint

/-- The node of a type that is neither named nor basic, under a name. -/
def composite (name : Name) (expr : TypeExpr) (walk : Walk) : Option (NodeId × Walk) :=
  let describe : Name → TypeExpr → Walk → Option ((Kind × Table NodeId) × Walk) := by apply describe
  let ((id, fresh), walk) := walk.claim name
  if fresh then do
    let ((kind, methods), walk) ← describe name expr (walk.start name)
    return (id, (walk.finish id name kind).setMethods id methods)
  else some (id, walk)
partial_fixpoint

/-- The kind and the methods of a type that is neither named nor basic, once the
parts are walked. -/
def describe (owner : Name) (expr : TypeExpr) (walk : Walk) :
    Option ((Kind × Table NodeId) × Walk) :=
  let type : Option Name → TypeExpr → Walk → Option (NodeId × Walk) := by apply type
  let members : List FieldExpr → Walk → Option (List Member × Walk) := by apply members
  let signatureOf : SignatureExpr → Walk → Option (Signature × Walk) := by apply signatureOf
  let methodsOf : (MethodExpr → Name) → List MethodExpr → Table NodeId →
      Walk → Option (Table NodeId × Walk) := by apply methodsOf
  match expr with
  | .pointer elem => do
    let (elem, walk) ← type none elem walk
    return ((.pointer elem, ∅), walk)
  | .slice elem => do
    let (elem, walk) ← type none elem walk
    return ((.slice elem, ∅), walk)
  | .array _ elem => do
    let (elem, walk) ← type none elem walk
    return ((.array elem, ∅), walk)
  | .chan _ elem => do
    let (elem, walk) ← type none elem walk
    return ((.chan elem, ∅), walk)
  | .map key elem => do
    let (elem, walk) ← type none elem walk
    let (key, walk) ← type none key walk
    return ((.map key elem, ∅), walk)
  | .struct fields => do
    let (members, walk) ← members fields walk
    return ((.struct members, ∅), walk)
  | .func signature => do
    let (signature, walk) ← signatureOf signature walk
    return ((.func signature, ∅), walk)
  | .interface methods => do
    let (methods, walk) ← methodsOf (fun method => method.declaringInterface?.getD owner)
      methods ∅ walk
    return ((.interface, methods), walk)
  | .basic _ | .named _ _ | .other _ => some ((.unsupported, ∅), walk)
partial_fixpoint

/-- The nodes of a list of types. -/
def types (exprs : List TypeExpr) (walk : Walk) : Option (List NodeId × Walk) :=
  let type : Option Name → TypeExpr → Walk → Option (NodeId × Walk) := by apply type
  let types : List TypeExpr → Walk → Option (List NodeId × Walk) := by apply types
  match exprs with
  | [] => some ([], walk)
  | first :: rest => do
    let (first, walk) ← type none first walk
    let (rest, walk) ← types rest walk
    return (first :: rest, walk)
partial_fixpoint

/-- The fields of a struct with the nodes of their types. -/
def members (fields : List FieldExpr) (walk : Walk) : Option (List Member × Walk) :=
  let type : Option Name → TypeExpr → Walk → Option (NodeId × Walk) := by apply type
  let members : List FieldExpr → Walk → Option (List Member × Walk) := by apply members
  match fields with
  | [] => some ([], walk)
  | ⟨name, embedded, tag, fieldType, pos⟩ :: rest => do
    let (type, walk) ← type none fieldType walk
    let (rest, walk) ← members rest walk
    return ({ name, embedded, tag, comments := lookup.comments.docLines pos, type } :: rest, walk)
partial_fixpoint

/-- The node of a receiver. -/
def receiverOf (receiver : Option TypeExpr) (walk : Walk) : Option (Option NodeId × Walk) :=
  let type : Option Name → TypeExpr → Walk → Option (NodeId × Walk) := by apply type
  match receiver with
  | none => some (none, walk)
  | some receiver => do
    let (receiver, walk) ← type none receiver walk
    return (some receiver, walk)
partial_fixpoint

/-- A signature over nodes: parameters first, then results, then the receiver. -/
def signatureOf (signature : SignatureExpr) (walk : Walk) : Option (Signature × Walk) := do
  let types : List TypeExpr → Walk → Option (List NodeId × Walk) := by apply types
  let receiverOf : Option TypeExpr → Walk → Option (Option NodeId × Walk) := by apply receiverOf
  let (parameters, walk) ← types signature.params walk
  let (results, walk) ← types signature.results walk
  let (receiver, walk) ← receiverOf signature.receiver walk
  return ({ receiver, parameters, results, variadic := signature.variadic, comments := [] }, walk)
partial_fixpoint

/-- The node of a method. -/
def method (name : Name) (expr : MethodExpr) (walk : Walk) : Option (NodeId × Walk) := do
  let composite : Name → TypeExpr → Walk → Option (NodeId × Walk) := by apply composite
  let (id, walk) ← composite name (.func expr.signature) walk
  return (id, walk.setMethodComments id (lookup.comments.docLines expr.pos))
partial_fixpoint

/-- The nodes of a list of methods by name, added to those of `known`. -/
def methodsOf (ownerOf : MethodExpr → Name) (methods : List MethodExpr) (known : Table NodeId)
    (walk : Walk) : Option (Table NodeId × Walk) :=
  let method : Name → MethodExpr → Walk → Option (NodeId × Walk) := by apply method
  let methodsOf : (MethodExpr → Name) → List MethodExpr → Table NodeId →
      Walk → Option (Table NodeId × Walk) := by apply methodsOf
  match methods with
  | [] => some (known, walk)
  | first :: rest => do
    let (id, walk) ← method (methodName (ownerOf first) first.name) first walk
    methodsOf ownerOf rest (known.insert first.name id) walk
partial_fixpoint

/-- A named type given its kind by its definition. -/
def defineKind (walk : Walk) (id : NodeId) (name : Name) (definition : Definition) :
    Option Walk :=
  let type : Option Name → TypeExpr → Walk → Option (NodeId × Walk) := by apply type
  if definition.underlying.isAliased then do
    let (underlying, walk) ← type none definition.underlying (walk.start name)
    return walk.finish id name (.aliasOf underlying)
  else do
    let (_, walk) ← type (some name) definition.underlying walk
    return walk
partial_fixpoint

/-- The methods declared on a named type, unless the node has methods already. -/
def addMethods (walk : Walk) (id : NodeId) (name : Name) (definition : Definition) :
    Option Walk :=
  let methodsOf : (MethodExpr → Name) → List MethodExpr → Table NodeId →
      Walk → Option (Table NodeId × Walk) := by apply methodsOf
  if (walk.atlas.node? id).all fun node => node.methods.isEmpty then do
    let (methods, walk) ← methodsOf (fun _ => name) definition.methods ∅ walk
    return walk.setMethods id methods
  else some walk
partial_fixpoint

/-- A named type described by its definition. -/
def define (walk : Walk) (id : NodeId) (name : Name) (definition : Definition) : Option Walk := do
  let defineKind : Walk → NodeId → Name → Definition → Option Walk := by apply defineKind
  let addMethods : Walk → NodeId → Name → Definition → Option Walk := by apply addMethods
  let walk ← defineKind walk id name definition
  addMethods walk id name definition
partial_fixpoint

/-- The node of a named type. One without a definition is unsupported. -/
def named (package name : String) (walk : Walk) : Option (NodeId × Walk) :=
  let define : Walk → NodeId → Name → Definition → Option Walk := by apply define
  let ((id, fresh), walk) := walk.claim { package, name }
  if fresh then
    match lookup.definitions.find? package name with
    | none => some (id, { walk with atlas := walk.atlas.resolve id .unsupported })
    | some definition => do
      let walk ← define walk id { package, name } definition
      return (id, walk)
  else some (id, walk)
partial_fixpoint

end

theorem type_eq_composite (useName : Option Name) {expr : TypeExpr}
    (composite : expr.isComposite = true) (walk : Walk) :
    type lookup useName expr walk =
      Unbounded.composite lookup (useName.getD expr.canonicalName) expr walk := by
  cases expr with
  | basic name | named package name => cases composite
  | _ => rw [type] <;> exact nofun

end Unbounded

/-! ## Below a definition -/

section Parts

variable {lookup : Lookup} {expand : String → String → Walk → NodeId × Walk} {room : Nat}

/-- A node is walked to its end when its parts are. -/
theorem ends_composite {name : Name} {expr : TypeExpr} {walk : Walk}
    (parts : ∀ id claimed, walk.claim name = ((id, true), claimed) →
      Unbounded.describe lookup name expr (claimed.start name) =
        some (describe lookup expand name expr (claimed.start name))) :
    Unbounded.composite lookup name expr walk =
      some (walk.node name (describe lookup expand name expr)) := by
  rw [Unbounded.composite, node]
  rcases claimed : walk.claim name with ⟨⟨id, fresh⟩, after⟩
  cases fresh with
  | false => rfl
  | true =>
    dsimp only
    rw [if_pos rfl, if_pos rfl, parts id after claimed]
    rfl

/-- A part of the walk ends with what the walk with a bound gives, as long as
there are fewer definitions to enter than there is room for. -/
def Ends {α : Type} (lookup : Lookup) (room : Nat) (unbounded : Walk → Option (α × Walk))
    (bounded : Walk → α × Walk) : Prop :=
  ∀ walk, walk.unentered lookup.definitions < room → unbounded walk = some (bounded walk)

/-- One part after another ends when both do. -/
theorem Ends.bind {α β : Type} {unbounded : Walk → Option (α × Walk)} {bounded : Walk → α × Walk}
    {unbounded' : α → Walk → Option (β × Walk)} {bounded' : α → Walk → β × Walk}
    (first : Ends lookup room unbounded bounded) (onward : ∀ walk, Onward walk (bounded walk).2)
    (second : ∀ result, Ends lookup room (unbounded' result) (bounded' result)) :
    Ends lookup room (fun walk => unbounded walk >>= fun (result, walk) => unbounded' result walk)
      (fun walk => bounded' (bounded walk).1 (bounded walk).2) := by
  intro walk fits
  show ((unbounded walk).bind fun x => unbounded' x.1 x.2) = _
  rw [first walk fits, Option.bind_some]
  exact second _ _ (Nat.lt_of_le_of_lt (onward walk).unentered_le fits)

/-- What needs no part ends. -/
theorem Ends.pure {α : Type} (result : α) :
    Ends lookup room (fun walk => Pure.pure (result, walk)) fun walk => (result, walk) :=
  fun _ _ => rfl

theorem Ends.composite {name : Name} {expr : TypeExpr}
    (parts : Ends lookup room (Unbounded.describe lookup name expr)
      (describe lookup expand name expr)) :
    Ends lookup room (Unbounded.composite lookup name expr)
      (node · name (describe lookup expand name expr)) := by
  intro walk fits
  refine ends_composite fun id claimed fresh => parts _ ?_
  exact Nat.lt_of_le_of_lt (unentered_start fresh) fits

/-- Named types are walked on, and to their end. -/
structure Completes (lookup : Lookup) (room : Nat)
    (expand : String → String → Walk → NodeId × Walk) : Prop where
  onward : ∀ package name walk, Onward walk (expand package name walk).2
  ends : ∀ package name,
    Ends lookup room (Unbounded.named lookup package name) (expand package name)

theorem Ends.type (h : Completes lookup room expand) {expr : TypeExpr}
    (parts : ∀ owner, Ends lookup room (Unbounded.describe lookup owner expr)
      (describe lookup expand owner expr)) (useName : Option Name) :
    Ends lookup room (Unbounded.type lookup useName expr)
      (Walk.type lookup expand useName expr) := by
  intro walk fits
  by_cases composite : expr.isComposite = true
  · rw [Unbounded.type_eq_composite lookup useName composite,
      type_eq_node lookup expand useName composite]
    exact Ends.composite (parts _) walk fits
  · cases expr with
    | basic name =>
      rw [Unbounded.type]
      rfl
    | named package name =>
      rw [Unbounded.type]
      exact h.ends package name walk fits
    | _ => exact absurd rfl composite

mutual

theorem ends_describe (h : Completes lookup room expand) : ∀ (expr : TypeExpr) (owner : Name),
    Ends lookup room (Unbounded.describe lookup owner expr) (describe lookup expand owner expr)
  | .basic _, owner, walk, fits | .named _ _, owner, walk, fits | .other _, owner, walk, fits => by
    rw [Unbounded.describe]
    rfl
  | .pointer elem, owner, walk, fits | .slice elem, owner, walk, fits
  | .array _ elem, owner, walk, fits | .chan _ elem, owner, walk, fits => by
    rw [Unbounded.describe, Ends.type h (ends_describe h elem) none walk fits]
    rfl
  | .map key elem, owner, walk, fits => by
    rw [Unbounded.describe]
    exact Ends.bind (Ends.type h (ends_describe h elem) none)
      (onward_type lookup h.onward none elem)
      (fun elem => Ends.bind (Ends.type h (ends_describe h key) none)
        (onward_type lookup h.onward none key) fun key => .pure (Kind.map key elem, ∅)) walk fits
  | .struct fields, owner, walk, fits => by
    rw [Unbounded.describe, ends_members h fields walk fits]
    rfl
  | .func signature, owner, walk, fits => by
    rw [Unbounded.describe, ends_signatureOf h signature walk fits]
    rfl
  | .interface methods, owner, walk, fits => by
    rw [Unbounded.describe, ends_methodsOf h _ methods ∅ walk fits]
    rfl

theorem ends_types (h : Completes lookup room expand) : ∀ exprs : List TypeExpr,
    Ends lookup room (Unbounded.types lookup exprs) (types lookup expand exprs)
  | [], walk, fits => by
    rw [Unbounded.types]
    rfl
  | first :: rest, walk, fits => by
    rw [Unbounded.types]
    exact Ends.bind (Ends.type h (ends_describe h first) none)
      (onward_type lookup h.onward none first)
      (fun first => Ends.bind (ends_types h rest) (onward_types lookup h.onward rest)
        fun rest => .pure (first :: rest)) walk fits

theorem ends_members (h : Completes lookup room expand) : ∀ fields : List FieldExpr,
    Ends lookup room (Unbounded.members lookup fields) (members lookup expand fields)
  | [], walk, fits => by
    rw [Unbounded.members]
    rfl
  | ⟨name, embedded, tag, type, pos⟩ :: rest, walk, fits => by
    rw [Unbounded.members]
    exact Ends.bind (Ends.type h (ends_describe h type) none)
      (onward_type lookup h.onward none type)
      (fun type => Ends.bind (ends_members h rest) (onward_members lookup h.onward rest) fun rest =>
        .pure ({ name, embedded, tag, comments := lookup.comments.docLines pos, type } :: rest))
      walk fits

theorem ends_receiverOf (h : Completes lookup room expand) : ∀ receiver : Option TypeExpr,
    Ends lookup room (Unbounded.receiverOf lookup receiver) (receiverOf lookup expand receiver)
  | none, walk, fits => by
    rw [Unbounded.receiverOf]
    rfl
  | some receiver, walk, fits => by
    rw [Unbounded.receiverOf, Ends.type h (ends_describe h receiver) none walk fits]
    rfl

theorem ends_signatureOf (h : Completes lookup room expand) : ∀ signature : SignatureExpr,
    Ends lookup room (Unbounded.signatureOf lookup signature) (signatureOf lookup expand signature)
  | ⟨receiver, params, results, variadic⟩, walk, fits => by
    rw [Unbounded.signatureOf]
    exact Ends.bind (ends_types h params) (onward_types lookup h.onward params)
      (fun parameters => Ends.bind (ends_types h results) (onward_types lookup h.onward results)
        fun results => Ends.bind (ends_receiverOf h receiver)
          (onward_receiverOf lookup h.onward receiver) fun receiver =>
            .pure (Signature.mk receiver parameters results variadic [])) walk fits

theorem ends_method (h : Completes lookup room expand) : ∀ (method : MethodExpr) (name : Name),
    Ends lookup room (Unbounded.method lookup name method) (Walk.method lookup expand name method)
  | ⟨_, _, signature⟩, name, walk, fits => by
    have parts : Ends lookup room (Unbounded.describe lookup name (.func signature))
        (describe lookup expand name (.func signature)) := fun walk fits => by
      rw [Unbounded.describe, ends_signatureOf h signature walk fits]
      rfl
    rw [Unbounded.method, Ends.composite parts walk fits]
    rfl

theorem ends_methodsOf (h : Completes lookup room expand) (ownerOf : MethodExpr → Name) :
    ∀ (methods : List MethodExpr) (known : Table NodeId),
    Ends lookup room (Unbounded.methodsOf lookup ownerOf methods known)
      (methodsOf lookup expand ownerOf methods known)
  | [], known, walk, fits => by
    rw [Unbounded.methodsOf]
    rfl
  | ⟨called, pos, signature⟩ :: rest, known, walk, fits => by
    rw [Unbounded.methodsOf]
    exact Ends.bind (ends_method h ⟨called, pos, signature⟩ _)
      (onward_method lookup h.onward ⟨called, pos, signature⟩ _)
      (fun id => ends_methodsOf h ownerOf rest (known.insert called id)) walk fits

end

/-- A definition is walked to its end if it takes room for one less than there are
left before it. -/
theorem ends_define (h : Completes lookup room expand) {walk claimed : Walk} {id : NodeId}
    {package name : String} {definition : Definition}
    (fresh : walk.claim { package, name } = ((id, true), claimed))
    (found : lookup.definitions.find? package name = some definition)
    (fits : walk.unentered lookup.definitions ≤ room) :
    Unbounded.define lookup claimed id { package, name } definition =
      some (define lookup expand claimed id { package, name } definition) := by
  have mem := Definitions.mem_names found
  have below := Nat.lt_of_lt_of_le (unentered_start_lt fresh mem) fits
  have kind : Unbounded.defineKind lookup claimed id { package, name } definition =
      some (defineKind lookup expand claimed id { package, name } definition) := by
    rw [Unbounded.defineKind]
    cases aliased : definition.underlying.isAliased with
    | true =>
      rw [if_pos rfl, Ends.type h (ends_describe h _) none _ below, defineKind,
        if_pos aliased]
      rfl
    | false =>
      have composite := composite_of_not_aliased aliased
      have whole : Unbounded.composite lookup { package, name } definition.underlying claimed =
          some (claimed.node { package, name }
            (describe lookup expand { package, name } definition.underlying)) := by
        refine ends_composite fun place again claim => ?_
        -- the name is claimed a second time, which changes nothing
        rw [claim_claimed fresh] at claim
        cases claim
        exact ends_describe h _ _ _ below
      rw [if_neg Bool.false_ne_true, Unbounded.type_eq_composite lookup _ composite,
        Option.getD_some, whole, defineKind, if_neg (ne_true_of_eq_false aliased),
        type_eq_node lookup expand _ composite, Option.getD_some]
      rfl
  have after := Nat.lt_of_lt_of_le
    (unentered_defineKind_lt lookup h.onward fresh mem definition) fits
  rw [Unbounded.define, kind, Option.bind_eq_bind, Option.bind_some, Unbounded.addMethods,
    define_eq, addMethods]
  split
  · rw [ends_methodsOf h _ _ _ _ after]
    rfl
  · rfl

end Parts

/-! ## The whole walk -/

/-- Named types are walked to their end within any depth that exceeds the number
of definitions left to enter. -/
theorem ends_named (lookup : Lookup) (depth : Nat) (package name : String) :
    Ends lookup depth (Unbounded.named lookup package name) (named lookup depth package name) := by
  induction depth generalizing package name with
  | zero => exact fun walk fits => absurd fits (Nat.not_lt_zero _)
  | succ depth ih =>
    intro walk fits
    rw [Unbounded.named, named]
    rcases claimed : walk.claim { package, name } with ⟨⟨id, fresh⟩, after⟩
    cases fresh with
    | false => rfl
    | true =>
      dsimp only
      rw [if_pos rfl, if_pos rfl]
      cases found : lookup.definitions.find? package name with
      | none => rfl
      | some definition =>
        dsimp only
        rw [ends_define ⟨onward_named lookup depth, ih⟩ claimed found (Nat.le_of_lt_succ fits)]
        rfl

/-- Every walk ends, whatever the definitions refer to, in any atlas and with any
names busy, and its end is that of the walk with a bound on the depth. -/
theorem unbounded_ends (lookup : Lookup) (walk : Walk) :
    (∀ useName expr, Unbounded.type lookup useName expr walk =
      some (addType lookup useName expr walk)) ∧
    (∀ name expr, Unbounded.composite lookup name expr walk =
      some (walk.node name (describe lookup (named lookup (depthBound lookup)) name expr))) ∧
    (∀ package name, Unbounded.named lookup package name walk =
      some (named lookup (depthBound lookup) package name walk)) ∧
    (∀ name expr, Unbounded.method lookup name expr walk =
      some (method lookup (named lookup (depthBound lookup)) name expr walk)) ∧
    (∀ signature, Unbounded.signatureOf lookup signature walk =
      some (signatureOf lookup (named lookup (depthBound lookup)) signature walk)) := by
  have h : Completes lookup (depthBound lookup) _ := ⟨onward_named lookup _, ends_named lookup _⟩
  have fits := unentered_lt_depthBound lookup walk
  refine ⟨fun useName expr => ?_, fun name expr => ?_, fun package name => ?_, fun name expr => ?_,
    fun signature => ?_⟩
  · exact Ends.type h (ends_describe h expr) useName walk fits
  · exact Ends.composite (ends_describe h expr name) walk fits
  · exact h.ends package name walk fits
  · exact ends_method h expr name walk fits
  · exact ends_signatureOf h signature walk fits

end GoAtlas.Walk
