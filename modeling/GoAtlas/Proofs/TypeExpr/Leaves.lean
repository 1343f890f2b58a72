import GoAtlas.Checked

/-!
# The leaves of a type

The leaves of a type expression are the primitives, the references to named types and the
types that are only described. `TypeExpr.Every` says that a property holds of each of them,
wherever it occurs: in fields, in parameters and results, in receivers and in the methods of
interfaces. `Checked.Every` says it of all that a checked package declares and defines.
-/

namespace GoAtlas

mutual

/-- The property holds of every leaf. -/
def TypeExpr.Every (p : TypeExpr → Prop) : TypeExpr → Prop
  | .basic name => p (.basic name)
  | .named package name => p (.named package name)
  | .other description => p (.other description)
  | .pointer elem | .slice elem | .array _ elem | .chan _ elem => elem.Every p
  | .map key elem => key.Every p ∧ elem.Every p
  | .struct fields => EveryField p fields
  | .func signature => signature.Every p
  | .interface methods => EveryMethod p methods

def SignatureExpr.Every (p : TypeExpr → Prop) : SignatureExpr → Prop
  | ⟨receiver, params, results, _⟩ =>
    EveryReceiver p receiver ∧ EveryType p params ∧ EveryType p results

def EveryReceiver (p : TypeExpr → Prop) : Option TypeExpr → Prop
  | none => True
  | some receiver => receiver.Every p

def EveryType (p : TypeExpr → Prop) : List TypeExpr → Prop
  | [] => True
  | first :: rest => first.Every p ∧ EveryType p rest

def FieldExpr.Every (p : TypeExpr → Prop) : FieldExpr → Prop
  | ⟨_, _, _, type, _⟩ => type.Every p

def EveryField (p : TypeExpr → Prop) : List FieldExpr → Prop
  | [] => True
  | first :: rest => first.Every p ∧ EveryField p rest

def MethodExpr.Every (p : TypeExpr → Prop) : MethodExpr → Prop
  | ⟨_, _, signature⟩ => signature.Every p

def EveryMethod (p : TypeExpr → Prop) : List MethodExpr → Prop
  | [] => True
  | first :: rest => first.Every p ∧ EveryMethod p rest

end

variable {p q : TypeExpr → Prop}

theorem everyType_iff {types : List TypeExpr} :
    EveryType p types ↔ ∀ type ∈ types, type.Every p := by
  induction types with
  | nil => simp [EveryType]
  | cons first rest ih => rw [EveryType, ih, List.forall_mem_cons]

theorem everyField_iff {fields : List FieldExpr} :
    EveryField p fields ↔ ∀ field ∈ fields, field.type.Every p := by
  induction fields with
  | nil => simp [EveryField]
  | cons first rest ih =>
    cases first
    rw [EveryField, ih, List.forall_mem_cons, FieldExpr.Every]

theorem everyMethod_iff {methods : List MethodExpr} :
    EveryMethod p methods ↔ ∀ method ∈ methods, method.Every p := by
  induction methods with
  | nil => simp [EveryMethod]
  | cons first rest ih => rw [EveryMethod, ih, List.forall_mem_cons]

mutual

theorem TypeExpr.every_mono (weaken : ∀ type, p type → q type) :
    ∀ type : TypeExpr, type.Every p → type.Every q
  | .basic _ => weaken _
  | .named _ _ => weaken _
  | .other _ => weaken _
  | .pointer elem => elem.every_mono weaken
  | .slice elem => elem.every_mono weaken
  | .array _ elem => elem.every_mono weaken
  | .chan _ elem => elem.every_mono weaken
  | .map key elem => fun h => ⟨key.every_mono weaken h.1, elem.every_mono weaken h.2⟩
  | .struct fields => everyField_mono weaken fields
  | .func signature => signature.every_mono weaken
  | .interface methods => everyMethod_mono weaken methods

theorem SignatureExpr.every_mono (weaken : ∀ type, p type → q type) :
    ∀ signature : SignatureExpr, signature.Every p → signature.Every q
  | ⟨receiver, params, results, _⟩ => fun h =>
    ⟨everyReceiver_mono weaken receiver h.1, everyType_mono weaken params h.2.1,
      everyType_mono weaken results h.2.2⟩

theorem everyReceiver_mono (weaken : ∀ type, p type → q type) :
    ∀ receiver : Option TypeExpr, EveryReceiver p receiver → EveryReceiver q receiver
  | none => id
  | some receiver => receiver.every_mono weaken

theorem everyType_mono (weaken : ∀ type, p type → q type) :
    ∀ types : List TypeExpr, EveryType p types → EveryType q types
  | [] => id
  | first :: rest => fun h => ⟨first.every_mono weaken h.1, everyType_mono weaken rest h.2⟩

theorem FieldExpr.every_mono (weaken : ∀ type, p type → q type) :
    ∀ field : FieldExpr, field.Every p → field.Every q
  | ⟨_, _, _, type, _⟩ => type.every_mono weaken

theorem everyField_mono (weaken : ∀ type, p type → q type) :
    ∀ fields : List FieldExpr, EveryField p fields → EveryField q fields
  | [] => id
  | first :: rest => fun h => ⟨first.every_mono weaken h.1, everyField_mono weaken rest h.2⟩

theorem MethodExpr.every_mono (weaken : ∀ type, p type → q type) :
    ∀ method : MethodExpr, method.Every p → method.Every q
  | ⟨_, _, signature⟩ => signature.every_mono weaken

theorem everyMethod_mono (weaken : ∀ type, p type → q type) :
    ∀ methods : List MethodExpr, EveryMethod p methods → EveryMethod q methods
  | [] => id
  | first :: rest => fun h => ⟨first.every_mono weaken h.1, everyMethod_mono weaken rest h.2⟩

end

/-! ## Packages -/

/-- The property holds of every leaf of what a name stands for. -/
def Declared.Every (p : TypeExpr → Prop) : Declared → Prop
  | .type written | .var written | .const written => written.Every p
  | .func signature => signature.Every p

/-- The property holds of every leaf of a definition and of its methods. -/
structure Definition.Every (p : TypeExpr → Prop) (definition : Definition) : Prop where
  underlying : definition.underlying.Every p
  methods : ∀ method ∈ definition.methods, method.Every p

/-- The property holds of every leaf of a package. -/
structure Checked.Every (p : TypeExpr → Prop) (checked : Checked) : Prop where
  declarations : ∀ declaration ∈ checked.declarations, declaration.declared.Every p
  definitions : ∀ name definition, checked.definitions.get? name = some definition →
    definition.Every p

theorem Declared.every_mono (weaken : ∀ type, p type → q type) {declared : Declared}
    (h : declared.Every p) : declared.Every q := by
  cases declared with
  | func signature => exact signature.every_mono weaken h
  | _ written => exact written.every_mono weaken h

theorem Definition.Every.mono (weaken : ∀ type, p type → q type) {definition : Definition}
    (h : definition.Every p) : definition.Every q where
  underlying := definition.underlying.every_mono weaken h.underlying
  methods method mem := method.every_mono weaken (h.methods method mem)

theorem Checked.Every.mono (weaken : ∀ type, p type → q type) {checked : Checked}
    (h : checked.Every p) : checked.Every q where
  declarations declaration mem := Declared.every_mono weaken (h.declarations declaration mem)
  definitions name definition there := (h.definitions name definition there).mono weaken

end GoAtlas
