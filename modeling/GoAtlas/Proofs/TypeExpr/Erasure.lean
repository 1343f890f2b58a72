import GoAtlas.TypeExpr.Description

/-!
# What a description leaves out

A description shows neither positions nor receivers, and an embedded field goes
without its name. `TypeExpr.erased` drops all three, `TypeExpr.unplaced` drops
the positions only. Expressions that agree after either have one description
and one canonical name.
-/

namespace GoAtlas

mutual

/-- A type without positions, and if it is pared fully also without receivers and the names of
embedded fields. -/
def TypeExpr.pared (fully : Bool) : TypeExpr → TypeExpr
  | .basic name => .basic name
  | .named package name => .named package name
  | .pointer elem => .pointer (elem.pared fully)
  | .slice elem => .slice (elem.pared fully)
  | .array length elem => .array length (elem.pared fully)
  | .chan direction elem => .chan direction (elem.pared fully)
  | .map key elem => .map (key.pared fully) (elem.pared fully)
  | .struct fields => .struct (paredFields fully fields)
  | .func signature => .func (signature.pared fully)
  | .interface methods => .interface (paredMethods fully methods)
  | .other description => .other description

def SignatureExpr.pared (fully : Bool) : SignatureExpr → SignatureExpr
  | ⟨receiver, params, results, variadic⟩ =>
    ⟨if fully then none else paredReceiver fully receiver, paredList fully params,
      paredList fully results, variadic⟩

def paredReceiver (fully : Bool) : Option TypeExpr → Option TypeExpr
  | none => none
  | some receiver => some (receiver.pared fully)

def paredList (fully : Bool) : List TypeExpr → List TypeExpr
  | [] => []
  | first :: rest => first.pared fully :: paredList fully rest

def FieldExpr.pared (fully : Bool) : FieldExpr → FieldExpr
  | ⟨name, embedded, tag, type, _⟩ =>
    ⟨if fully && embedded then "" else name, embedded, tag, type.pared fully, none⟩

def paredFields (fully : Bool) : List FieldExpr → List FieldExpr
  | [] => []
  | first :: rest => first.pared fully :: paredFields fully rest

def MethodExpr.pared (fully : Bool) : MethodExpr → MethodExpr
  | ⟨name, _, signature⟩ => ⟨name, none, signature.pared fully⟩

def paredMethods (fully : Bool) : List MethodExpr → List MethodExpr
  | [] => []
  | first :: rest => first.pared fully :: paredMethods fully rest

end

/-- A type without positions, receivers and the names of embedded fields. -/
abbrev TypeExpr.erased (type : TypeExpr) : TypeExpr :=
  type.pared true

/-- A type without positions. -/
abbrev TypeExpr.unplaced (type : TypeExpr) : TypeExpr :=
  type.pared false

/-- A signature without positions. -/
abbrev SignatureExpr.unplaced (signature : SignatureExpr) : SignatureExpr :=
  signature.pared false

/-! ## One description -/

/-- The description of a type at the end of a list. -/
def TypeExpr.describeLast (variadic : Bool) : TypeExpr → String
  | .slice elem => (if variadic then "..." else "[]") ++ elem.describe
  | type => type.describe

/-- The description of a type that is the only result. -/
def TypeExpr.describeResult : TypeExpr → String
  | .func signature => " (func" ++ signature.describe ++ ")"
  | type => " " ++ type.describe

theorem describeList_single (variadic : Bool) (type : TypeExpr) :
    describeList variadic [type] = type.describeLast variadic := by
  cases type <;> rfl

theorem describeList_cons (variadic : Bool) (first second : TypeExpr) (rest : List TypeExpr) :
    describeList variadic (first :: second :: rest) =
      first.describe ++ ", " ++ describeList variadic (second :: rest) := by
  cases first <;> rfl

theorem describeResults_single (type : TypeExpr) :
    describeResults [type] = type.describeResult := by
  cases type <;> rfl

theorem describeResults_cons (first second : TypeExpr) (rest : List TypeExpr) :
    describeResults (first :: second :: rest) =
      " (" ++ first.describe ++ ", " ++ describeList false (second :: rest) ++ ")" := by
  cases first <;> rfl

variable (fully : Bool)

mutual

/-- What is left out does not show in a description. -/
theorem TypeExpr.describe_pared :
    ∀ type : TypeExpr, (type.pared fully).describe = type.describe
  | .basic _ | .named _ _ | .other _ => rfl
  | .pointer elem => by simp only [TypeExpr.pared, TypeExpr.describe, elem.describe_pared]
  | .slice elem => by simp only [TypeExpr.pared, TypeExpr.describe, elem.describe_pared]
  | .array length elem => by
    simp only [TypeExpr.pared, TypeExpr.describe, elem.describe_pared]
  | .chan direction elem => by
    simp only [TypeExpr.pared, TypeExpr.describe, elem.describe_pared]
  | .map key elem => by
    simp only [TypeExpr.pared, TypeExpr.describe, key.describe_pared,
      elem.describe_pared]
  | .struct fields => by
    simp only [TypeExpr.pared, TypeExpr.describe, describeFields_pared fields]
  | .func signature => by
    simp only [TypeExpr.pared, TypeExpr.describe, signature.describe_pared]
  | .interface methods => by
    simp only [TypeExpr.pared, TypeExpr.describe, describeMethods_pared methods]

theorem TypeExpr.describeLast_pared (variadic : Bool) :
    ∀ type : TypeExpr, (type.pared fully).describeLast variadic = type.describeLast variadic
  | .slice elem => by
    simp only [TypeExpr.pared, TypeExpr.describeLast, elem.describe_pared]
  | .basic _ | .named _ _ | .other _ => rfl
  | .pointer elem => (TypeExpr.pointer elem).describe_pared
  | .array length elem => (TypeExpr.array length elem).describe_pared
  | .chan direction elem => (TypeExpr.chan direction elem).describe_pared
  | .map key elem => (TypeExpr.map key elem).describe_pared
  | .struct fields => (TypeExpr.struct fields).describe_pared
  | .func signature => (TypeExpr.func signature).describe_pared
  | .interface methods => (TypeExpr.interface methods).describe_pared

theorem TypeExpr.describeResult_pared :
    ∀ type : TypeExpr, (type.pared fully).describeResult = type.describeResult
  | .func signature => by
    simp only [TypeExpr.pared, TypeExpr.describeResult, signature.describe_pared]
  | .basic _ | .named _ _ | .other _ => rfl
  | .pointer elem => congrArg (" " ++ ·) (TypeExpr.pointer elem).describe_pared
  | .slice elem => congrArg (" " ++ ·) (TypeExpr.slice elem).describe_pared
  | .array length elem => congrArg (" " ++ ·) (TypeExpr.array length elem).describe_pared
  | .chan direction elem => congrArg (" " ++ ·) (TypeExpr.chan direction elem).describe_pared
  | .map key elem => congrArg (" " ++ ·) (TypeExpr.map key elem).describe_pared
  | .struct fields => congrArg (" " ++ ·) (TypeExpr.struct fields).describe_pared
  | .interface methods => congrArg (" " ++ ·) (TypeExpr.interface methods).describe_pared

theorem SignatureExpr.describe_pared :
    ∀ signature : SignatureExpr, (signature.pared fully).describe = signature.describe
  | ⟨receiver, params, results, variadic⟩ => by
    simp only [SignatureExpr.pared, SignatureExpr.describe, describeResults_pared results,
      describeList_pared variadic params]

theorem describeList_pared (variadic : Bool) :
    ∀ types : List TypeExpr,
      describeList variadic (paredList fully types) = describeList variadic types
  | [] => rfl
  | [single] => by
    simp only [paredList, describeList_single, single.describeLast_pared variadic]
  | first :: second :: rest => by
    have tail := describeList_pared variadic (second :: rest)
    simp only [paredList] at tail ⊢
    simp only [describeList_cons, first.describe_pared, tail]

theorem describeResults_pared :
    ∀ types : List TypeExpr, describeResults (paredList fully types) = describeResults types
  | [] => rfl
  | [single] => by simp only [paredList, describeResults_single, single.describeResult_pared]
  | first :: second :: rest => by
    have tail := describeList_pared false (second :: rest)
    simp only [paredList] at tail ⊢
    simp only [describeResults_cons, first.describe_pared, tail]

theorem FieldExpr.describe_pared :
    ∀ field : FieldExpr, (field.pared fully).describe = field.describe
  | ⟨name, true, tag, type, pos⟩ => by
    simp only [FieldExpr.pared, FieldExpr.describe, type.describe_pared, if_true]
  | ⟨name, false, tag, type, pos⟩ => by
    simp only [FieldExpr.pared, FieldExpr.describe, type.describe_pared, Bool.and_false,
      Bool.false_eq_true, if_false]

theorem describeFields_pared :
    ∀ fields : List FieldExpr, describeFields (paredFields fully fields) = describeFields fields
  | [] => rfl
  | [single] => by simp only [paredFields, describeFields, single.describe_pared]
  | first :: second :: rest => by
    have tail := describeFields_pared (second :: rest)
    simp only [paredFields] at tail ⊢
    simp only [describeFields, first.describe_pared, tail]

theorem MethodExpr.describe_pared :
    ∀ method : MethodExpr, (method.pared fully).describe = method.describe
  | ⟨name, pos, signature⟩ => by
    simp only [MethodExpr.pared, MethodExpr.describe, signature.describe_pared]

theorem describeMethods_pared :
    ∀ methods : List MethodExpr,
      describeMethods (paredMethods fully methods) = describeMethods methods
  | [] => rfl
  | [single] => by simp only [paredMethods, describeMethods, single.describe_pared]
  | first :: second :: rest => by
    have tail := describeMethods_pared (second :: rest)
    simp only [paredMethods] at tail ⊢
    simp only [describeMethods, first.describe_pared, tail]

end

/-- The name of a type has no location. -/
theorem TypeExpr.path_canonicalName (type : TypeExpr) : type.canonicalName.path = none := by
  cases type <;> rfl

/-- The canonical name shows no more than the description. -/
theorem TypeExpr.canonicalName_pared (type : TypeExpr) :
    (type.pared fully).canonicalName = type.canonicalName := by
  have described := type.describe_pared fully
  cases type with
  | basic name => rfl
  | named package name => rfl
  | _ => exact congrArg Name.bare described

end GoAtlas
