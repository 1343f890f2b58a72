import GoAtlas.Proofs.Check.Ends
import GoAtlas.Proofs.Check.FileOrder
import Mathlib.Logic.Relation

/-!
# The method sets of interfaces

The method set of an interface is put together along its body: its own methods are written
over what is there, those of an embedded interface are added where there is none
(`get?_resolveElements`). An embedded interface of the package is entered in turn, at most so
deep, so a set is complete only if the depth suffices. It does where no interface embeds itself:
the way down passes a declared interface at most once, and the aliases that an embedded name
leads through add no more than their number (`Leads.resolve`).

So each interface has the methods of all interfaces that it embeds, directly or through others
(`isMethodSet_of_embedsWell`). Each method has as its receiver the interface whose body it is
written in. Of an imported interface the methods are taken as its definition lists them. One
that is defined by another name for an interface has methods without a receiver, and those
come to the interface that embeds it.
-/

namespace GoAtlas.Check

open Relation

variable {elements : List ElementTree} {method : MethodExpr} {inside : FileScope} {package : String}
  {methods : List MethodExpr} {receiver : TypeExpr}

/-! ## Relations without cycles -/

section

variable {r : String → String → Prop} {names : List String} {x y : String}

open Classical in
/-- How many of the names one leads to. -/
noncomputable def reach (r : String → String → Prop) (names : List String) (x : String) : Nat :=
  names.countP fun y => TransGen r x y

/-- A name leads to more names than one it leads to, unless that one leads to itself. -/
theorem reach_lt_of_step (step : r x y) (mem : y ∈ names) (acyclic : ¬ TransGen r y y) :
    reach r names y < reach r names x := by
  refine countP_lt_countP ?_ mem ?_ ?_
  · intro z _
    simpa using .head step
  · simpa using acyclic
  · simpa using .single step

theorem reach_lt_length (mem : x ∈ names) (acyclic : ¬ TransGen r x x) :
    reach r names x < names.length := by
  rw [← List.countP_true]
  refine countP_lt_countP (fun _ _ _ => rfl) mem ?_ rfl
  simpa using acyclic

end

/-! ## What names lead to -/

/-- The type that a name in a file leads to, through any aliases. -/
inductive Leads (scope : Scope) : FileScope → TypeTree → TypeExpr → Prop
  | own {file : FileScope} {name : String} {found : LocalType} :
      name ∉ basicNames → scope.types.get? name = some found →
      found.isAlias = false → Leads scope file (.ident name) (.named scope.package name)
  | through {file : FileScope} {name : String} {found : LocalType} {target : TypeExpr} :
      name ∉ basicNames → scope.types.get? name = some found →
      found.isAlias = true → Leads scope found.file found.tree target →
      Leads scope file (.ident name) target
  | error {file : FileScope} : scope.types.get? "error" = none →
      Leads scope file (.ident "error") errorType
  | imported {file : FileScope} {package name : String} :
      Leads scope file (.qualified package name) (resolveQualified scope file package name).value

/-- The first name is an alias that is written as the second. -/
def IsAliasOf (scope : Scope) (name other : String) : Prop :=
  ∃ found, scope.types.get? name = some found ∧ found.isAlias = true ∧ found.tree = .ident other

variable {scope : Scope} {entry : Entry} {file : FileScope} {name other : String}
  {tree : TypeTree} {target : TypeExpr} {found : LocalType} {depth : Nat}

/-- An alias that leads to a type does not lead to itself. -/
theorem Leads.acyclic (leads : Leads scope file tree target) (same : tree = .ident name) :
    ¬ TransGen (IsAliasOf scope) name name := by
  induction leads generalizing name with
  | own _ there plain =>
    cases same
    intro cycle
    obtain ⟨next, ⟨found, there', isAlias, -⟩, -⟩ := TransGen.head'_iff.1 cycle
    rw [there] at there'
    cases there'
    rw [plain] at isAlias
    cases isAlias
  | through _ there _ _ ih =>
    cases same
    intro cycle
    obtain ⟨next, ⟨found, there', isAlias, written⟩, back⟩ := TransGen.head'_iff.1 cycle
    rw [there] at there'
    cases there'
    -- the cycle comes back to the next name as well
    exact ih written (.tail' back ⟨_, there, isAlias, written⟩)
  | error none =>
    cases same
    intro cycle
    obtain ⟨next, ⟨found, there, -⟩, -⟩ := TransGen.head'_iff.1 cycle
    rw [none] at there
    cases there
  | imported => cases same

theorem resolveIdent_own (plain : name ∉ basicNames)
    (there : scope.types.get? name = some found) (own : found.isAlias = false) :
    (resolveIdent scope entry file name).value = .named scope.package name := by
  rw [resolveIdent, if_neg (by simpa using plain), there]
  dsimp only
  rw [own]
  rfl

theorem resolveIdent_alias (plain : name ∉ basicNames)
    (there : scope.types.get? name = some found) (isAlias : found.isAlias = true) :
    resolveIdent scope entry file name = entry.ofAlias found := by
  rw [resolveIdent, if_neg (by simpa using plain), there]
  exact if_pos isAlias

theorem resolveIdent_error (none : scope.types.get? "error" = none) :
    (resolveIdent scope entry file "error").value = errorType := by
  rw [resolveIdent, if_neg (by decide), none]
  rfl

/-- Each alias on the way takes one step of the depth. -/
theorem Leads.resolve_of_reach (leads : Leads scope file tree target)
    (deep : ∀ name ∈ scope.types.keys, tree = .ident name →
      reach (IsAliasOf scope) scope.types.keys name < depth) :
    (resolve scope (entryAt scope depth) file tree).value = target := by
  induction leads generalizing depth with
  | own plain there own =>
    rw [resolve]
    exact resolveIdent_own plain there own
  | @through file name found target plain there isAlias leads ih =>
    have below := deep name ((Table.mem_keys_iff ..).2 ⟨found, there⟩) rfl
    rw [resolve, resolveIdent_alias plain there isAlias]
    cases depth with
    | zero => cases below
    | succ depth =>
      apply ih
      intro next mem written
      have step : IsAliasOf scope name next := ⟨found, there, isAlias, written⟩
      have fewer := reach_lt_of_step step mem (leads.acyclic written)
      omega
  | error none =>
    rw [resolve]
    exact resolveIdent_error none
  | imported => rw [resolve]

/-- As many steps as there are types suffice for every name that leads to a type. -/
theorem Leads.resolve (leads : Leads scope file tree target)
    (deep : scope.types.keys.length ≤ depth) :
    (resolve scope (entryAt scope depth) file tree).value = target := by
  refine leads.resolve_of_reach ?_
  intro name mem written
  exact Nat.lt_of_lt_of_le (reach_lt_length mem (leads.acyclic written)) deep

/-- Two ways to a type lead to the same. -/
theorem Leads.unique {target' : TypeExpr} (leads : Leads scope file tree target)
    (leads' : Leads scope file tree target') : target = target' :=
  (leads.resolve (Nat.le_refl _)).symm.trans (leads'.resolve (Nat.le_refl _))

/-! ## The methods of a body -/

/-- The last method of a name in the body of an interface. -/
def lastMethod? (name : String) : List ElementTree → Option (SignatureTree × Nat)
  | [] => none
  | .method other signature line :: rest =>
    (lastMethod? name rest).or (if other = name then some (signature, line) else none)
  | .embedded _ :: rest => lastMethod? name rest

/-- A method as it stands in the body of an interface. -/
def bodyMethod (scope : Scope) (entry : Entry) (file : FileScope) (owner : Option TypeExpr)
    (name : String) (written : SignatureTree × Nat) : MethodExpr :=
  { name
    pos := some { file := file.path, line := written.2 }
    signature := (resolveSignature scope entry file owner written.1).value }

/-- The methods of what a body embeds. -/
def methodsAt (scope : Scope) (entry : Entry) (file : FileScope) (tree : TypeTree) :
    List MethodExpr :=
  (embeddedMethods scope entry file (resolve scope entry file tree).value).value

/-- The first method of a name among the methods that an element brings with it. -/
def inheritedMethod? (scope : Scope) (entry : Entry) (file : FileScope) (owner : Option TypeExpr)
    (name : String) : ElementTree → Option MethodExpr
  | .method _ _ _ => none
  | .embedded tree =>
    ((methodsAt scope entry file tree).find? fun method => method.name == name).map
      (inherited owner)

theorem get?_inherit (owner : Option TypeExpr) (set : Table MethodExpr)
    (methods : List MethodExpr) (name : String) :
    (inherit owner set methods).get? name =
      (set.get? name).or
        ((methods.find? fun method => method.name == name).map (inherited owner)) := by
  induction methods generalizing set with
  | nil => simp [inherit]
  | cons first rest ih =>
    show (inherit owner (set.insertIfNew first.name (inherited owner first)) rest).get? name = _
    rw [ih, Table.get?_insertIfNew]
    by_cases same : first.name = name
    · subst same
      cases set.get? first.name <;> simp
    · have other : (first.name == name) = false := by simpa using same
      simp [other, Ne.symm same]

/-- What the method set of an interface has under a name: its own method, or else what was there
before, or else what the first embedded interface with such a method has. -/
theorem get?_resolveElements (scope : Scope) (entry : Entry) (file : FileScope)
    (owner : Option TypeExpr) (elements : List ElementTree) (set : Table MethodExpr)
    (name : String) :
    (resolveElements scope entry file owner elements set).value.get? name =
      ((lastMethod? name elements).map (bodyMethod scope entry file owner name)).or
        ((set.get? name).or
          (elements.findSome? (inheritedMethod? scope entry file owner name))) := by
  induction elements generalizing set with
  | nil => simp [resolveElements, lastMethod?, pure]
  | cons element rest ih =>
    cases element with
    | method other signature line =>
      rw [resolveElements]
      show (resolveElements scope entry file owner rest (set.insert other _)).value.get? name = _
      rw [ih, Table.get?_insert]
      by_cases same : other = name
      · subst same
        cases own : lastMethod? other rest <;> simp [lastMethod?, own, bodyMethod]
      · rw [lastMethod?, if_neg same, if_neg (Ne.symm same), Option.or_none]
        rfl
    | embedded tree =>
      rw [resolveElements]
      show (resolveElements scope entry file owner rest
        (inherit owner set (methodsAt scope entry file tree))).value.get? name = _
      have step : (ElementTree.embedded tree :: rest).findSome?
            (inheritedMethod? scope entry file owner name) =
          (inheritedMethod? scope entry file owner name (.embedded tree)).or
            (rest.findSome? (inheritedMethod? scope entry file owner name)) := by
        rw [List.findSome?_cons]
        cases inheritedMethod? scope entry file owner name (.embedded tree) <;> rfl
      rw [ih, get?_inherit, Option.or_assoc, step]
      rfl

/-- The method set of an interface by its body. -/
def methodSet (scope : Scope) (entry : Entry) (file : FileScope) (owner : Option TypeExpr)
    (elements : List ElementTree) : List MethodExpr :=
  (resolveElements scope entry file owner elements ∅).value.values

section

variable {owner : Option TypeExpr}

theorem name_of_inheritedMethod? {element : ElementTree}
    (brings : inheritedMethod? scope entry file owner name element = some method) :
    ∃ tree, element = .embedded tree ∧ ∃ given ∈ methodsAt scope entry file tree,
      given.name = name ∧ inherited owner given = method := by
  cases element with
  | method other signature line => cases brings
  | embedded tree =>
    obtain ⟨given, first, same⟩ := Option.map_eq_some_iff.1 brings
    have named : given.name = name := by simpa using List.find?_some first
    exact ⟨tree, rfl, given, List.mem_of_find?_eq_some first, named, same⟩

/-- A method of an interface is its own, or it has none of the name and an embedded interface
has one. -/
theorem get?_cases
    (there : (resolveElements scope entry file owner elements ∅).value.get? name = some method) :
    (∃ written, lastMethod? name elements = some written ∧
      bodyMethod scope entry file owner name written = method) ∨
    (lastMethod? name elements = none ∧ ∃ tree, .embedded tree ∈ elements ∧
      ∃ given ∈ methodsAt scope entry file tree, given.name = name ∧
        inherited owner given = method) := by
  rw [get?_resolveElements, Table.get?_empty, Option.none_or] at there
  cases own : lastMethod? name elements with
  | some written =>
    rw [own] at there
    exact .inl ⟨written, rfl, Option.some.inj there⟩
  | none =>
    rw [own] at there
    obtain ⟨element, mem, brings⟩ := List.exists_of_findSome?_eq_some there
    obtain ⟨tree, rfl, given⟩ := name_of_inheritedMethod? brings
    exact .inr ⟨rfl, tree, mem, given⟩

/-- A method stands under its own name. -/
theorem name_of_get?
    (there : (resolveElements scope entry file owner elements ∅).value.get? name = some method) :
    method.name = name := by
  obtain ⟨written, -, rfl⟩ | ⟨-, tree, -, given, -, named, rfl⟩ := get?_cases there
  · rfl
  · exact named

theorem mem_methodSet_iff : method ∈ methodSet scope entry file owner elements ↔
    (resolveElements scope entry file owner elements ∅).value.get? method.name = some method := by
  rw [methodSet, Table.mem_values_iff]
  constructor
  · rintro ⟨name, there⟩
    rwa [name_of_get? there]
  · intro there
    exact ⟨_, there⟩

/-- The methods are listed in the order of their names, each once. -/
theorem methodSet_increasing (scope : Scope) (entry : Entry) (file : FileScope)
    (owner : Option TypeExpr) (elements : List ElementTree) :
    (methodSet scope entry file owner elements).Pairwise fun a b => a.name < b.name := by
  rw [methodSet, Table.values, List.pairwise_map]
  refine List.Pairwise.imp_of_mem ?_ (Table.increasing _)
  rintro ⟨name, method⟩ ⟨other, next⟩ mem mem' less
  rwa [name_of_get? ((Table.mem_entries_iff ..).1 mem),
    name_of_get? ((Table.mem_entries_iff ..).1 mem')]

theorem own_mem_methodSet {written : SignatureTree × Nat}
    (own : lastMethod? name elements = some written) :
    bodyMethod scope entry file owner name written ∈
      methodSet scope entry file owner elements := by
  rw [mem_methodSet_iff, get?_resolveElements]
  show ((lastMethod? name elements).map _).or _ = _
  rw [own]
  rfl

/-- There is a method for each that an embedded interface has. -/
theorem exists_mem_methodSet (embedded : .embedded tree ∈ elements)
    (given : method ∈ methodsAt scope entry file tree) :
    ∃ found ∈ methodSet scope entry file owner elements, found.name = method.name := by
  have brings : (inheritedMethod? scope entry file owner method.name (.embedded tree)).isSome := by
    rw [inheritedMethod?, Option.isSome_map, List.find?_isSome]
    exact ⟨method, given, by simp⟩
  have inherits : (elements.findSome?
      (inheritedMethod? scope entry file owner method.name)).isSome := by
    rw [List.findSome?_isSome_iff]
    exact ⟨_, embedded, brings⟩
  have there := get?_resolveElements scope entry file owner elements ∅ method.name
  obtain ⟨found, here⟩ : ∃ found,
      (resolveElements scope entry file owner elements ∅).value.get? method.name = some found := by
    rw [← Option.isSome_iff_exists, there, Option.isSome_or, Option.isSome_or, inherits]
    simp
  have named := name_of_get? here
  exact ⟨found, mem_methodSet_iff.2 (named ▸ here), named⟩

end

/-! ## Embedding -/

/-- The package declares an interface with the name and the body. -/
def Scope.Declares (scope : Scope) (name : String) (file : FileScope)
    (elements : List ElementTree) : Prop :=
  scope.types.get? name = some ⟨.interface elements, false, file⟩

/-- The body of the interface embeds the type. -/
def EmbedsType (scope : Scope) (name : String) (target : TypeExpr) : Prop :=
  ∃ file elements tree, scope.Declares name file elements ∧ .embedded tree ∈ elements ∧
    Leads scope file tree target

/-- The first of two interfaces of the package embeds the second. -/
def Embeds (scope : Scope) (name other : String) : Prop :=
  EmbedsType scope name (.named scope.package other) ∧
    TypeExpr.named scope.package other ≠ errorType ∧
    ∃ file elements, scope.Declares other file elements

/-- The methods of an interface that an imported package defines. -/
def importedMethods? (scope : Scope) (package name : String) : Option (List MethodExpr) :=
  ((importedByPath? scope package).bind fun checked => checked.definitions.get? name).bind
    fun definition =>
      match definition.underlying with
      | .interface methods => some methods
      | _ => none

/-- A type with a name that is an interface: `error`, one of the package, or one of an imported
package. -/
inductive IsInterface (scope : Scope) : TypeExpr → Prop
  | error : IsInterface scope errorType
  | own {name : String} {file : FileScope} {elements : List ElementTree} :
      TypeExpr.named scope.package name ≠ errorType → scope.Declares name file elements →
      IsInterface scope (.named scope.package name)
  | imported {package name : String} {methods : List MethodExpr} :
      TypeExpr.named package name ≠ errorType → package ≠ scope.package →
      importedMethods? scope package name = some methods → IsInterface scope (.named package name)

/-- No interface of the package embeds itself, and all that is embedded are interfaces. -/
structure Scope.EmbedsWell (scope : Scope) : Prop where
  acyclic : ∀ name, ¬ TransGen (Embeds scope) name name
  interfaces : ∀ name file elements tree, scope.Declares name file elements →
    .embedded tree ∈ elements → ∃ target, Leads scope file tree target ∧ IsInterface scope target

theorem embeddedMethods_error (scope : Scope) (entry : Entry) (file : FileScope) :
    (embeddedMethods scope entry file errorType).value = errorMethods :=
  rfl

theorem not_error (other : TypeExpr.named package name ≠ errorType) :
    ¬ (package.isEmpty ∧ name = "error") := by
  rintro ⟨empty, rfl⟩
  rw [String.isEmpty_iff] at empty
  subst empty
  exact other rfl

theorem embeddedMethods_own (other : TypeExpr.named scope.package name ≠ errorType)
    (declared : scope.Declares name inside elements) :
    embeddedMethods scope entry file (.named scope.package name) =
      entry.ofInterface (.named scope.package name) inside elements := by
  rw [embeddedMethods, if_neg (not_error other), if_pos rfl]
  rw [declared]

theorem embeddedMethods_imported (other : TypeExpr.named package name ≠ errorType)
    (apart : package ≠ scope.package) (given : importedMethods? scope package name = some methods) :
    (embeddedMethods scope entry file (.named package name)).value = methods := by
  obtain ⟨⟨called, underlying, declared⟩, found, listed⟩ := Option.bind_eq_some_iff.1 given
  rw [embeddedMethods, if_neg (not_error other), if_neg apart, found]
  cases underlying with
  | interface inner =>
    cases listed
    rfl
  | _ => cases listed

/-! ## Where methods come from -/

/-- The method stands in the body of the interface, or the body embeds an interface from outside
the package that has it. Its receiver is the interface of the body, or what it has outside, where
it may have none. The depth is what the types in its signature are entered with. -/
inductive Offers (scope : Scope) (owner : String) : TypeExpr → MethodExpr → Prop
  | body {file : FileScope} {elements : List ElementTree} {name : String}
      {written : SignatureTree × Nat} {depth : Nat} :
      scope.Declares owner file elements → lastMethod? name elements = some written →
      scope.types.keys.length ≤ depth →
      Offers scope owner (.named scope.package owner)
        (bodyMethod scope (entryAt scope depth) file (some (.named scope.package owner)) name
          written)
  | error {method : MethodExpr} : EmbedsType scope owner errorType → method ∈ errorMethods →
      Offers scope owner errorType method
  | imported {package name : String} {methods : List MethodExpr} {method : MethodExpr} :
      EmbedsType scope owner (.named package name) → TypeExpr.named package name ≠ errorType →
      package ≠ scope.package → importedMethods? scope package name = some methods →
      method ∈ methods →
      Offers scope owner (method.signature.receiver.getD (.named scope.package owner))
        (inherited (some (.named scope.package owner)) method)

theorem receiver_bodyMethod (scope : Scope) (entry : Entry) (file : FileScope)
    (owner : Option TypeExpr) (name : String) (written : SignatureTree × Nat) :
    (bodyMethod scope entry file owner name written).signature.receiver = owner := by
  obtain ⟨⟨params, results, variadic⟩, line⟩ := written
  rw [bodyMethod, resolveSignature]
  rfl

theorem receiver_of_mem_errorMethods (mem : method ∈ errorMethods) :
    method.signature.receiver = some errorType := by
  cases List.mem_singleton.1 mem
  rfl

theorem Offers.receiver_eq {owner : String} (offers : Offers scope owner receiver method) :
    method.signature.receiver = some receiver := by
  cases offers with
  | body _ _ _ => exact receiver_bodyMethod ..
  | error _ mem => exact receiver_of_mem_errorMethods mem
  | @imported _ _ _ given _ _ _ _ _ =>
    show given.signature.receiver.or _ = _
    cases given.signature.receiver <;> rfl

/-- A method that has a receiver is inherited as it is. -/
theorem Offers.inherited_eq {owner : String} (offers : Offers scope owner receiver method)
    (heir : Option TypeExpr) : inherited heir method = method := by
  have given := offers.receiver_eq
  obtain ⟨name, pos, receiver, params, results, variadic⟩ := method
  cases given
  rfl

/-- The methods are those of the interface and of all that it embeds, with their receivers. -/
structure Gathers (scope : Scope) (owner : String) (methods : List MethodExpr) : Prop where
  offered : ∀ method ∈ methods, ∃ other receiver, ReflTransGen (Embeds scope) owner other ∧
    Offers scope other receiver method ∧ method.signature.receiver = some receiver
  complete : ∀ other receiver method, ReflTransGen (Embeds scope) owner other →
    Offers scope other receiver method → ∃ found ∈ methods, found.name = method.name

theorem methodsAt_own (leads : Leads scope file tree (.named scope.package name))
    (other : TypeExpr.named scope.package name ≠ errorType)
    (declared : scope.Declares name inside elements) (deep : scope.types.keys.length ≤ depth + 1) :
    methodsAt scope (entryAt scope (depth + 1)) file tree =
      methodSet scope (entryAt scope depth) inside (some (.named scope.package name)) elements := by
  rw [methodsAt, leads.resolve deep, embeddedMethods_own other declared]
  rfl

theorem methodsAt_error (leads : Leads scope file tree errorType)
    (deep : scope.types.keys.length ≤ depth) :
    methodsAt scope (entryAt scope depth) file tree = errorMethods := by
  rw [methodsAt, leads.resolve deep, embeddedMethods_error]

theorem methodsAt_imported (leads : Leads scope file tree (.named package name))
    (other : TypeExpr.named package name ≠ errorType) (apart : package ≠ scope.package)
    (given : importedMethods? scope package name = some methods)
    (deep : scope.types.keys.length ≤ depth) :
    methodsAt scope (entryAt scope depth) file tree = methods := by
  rw [methodsAt, leads.resolve deep, embeddedMethods_imported other apart given]

theorem Scope.Declares.unique {others : List ElementTree}
    (declared : scope.Declares name file elements) (declared' : scope.Declares name inside others) :
    file = inside ∧ elements = others := by
  have same := Option.some.inj (declared.symm.trans declared')
  cases same
  exact ⟨rfl, rfl⟩

/-- The interface is entered with all its methods, at the depth. -/
def Entered (scope : Scope) (depth : Nat) (name : String) : Prop :=
  ∀ {file : FileScope} {elements : List ElementTree}, scope.Declares name file elements →
    Gathers scope name (methodSet scope (entryAt scope depth) file
      (some (.named scope.package name)) elements)

section

variable (well : scope.EmbedsWell) (declared : scope.Declares name file elements)
  (deep : scope.types.keys.length ≤ depth)
  (below : ∀ {other : String}, Embeds scope name other →
    ∃ less, depth = less + 1 ∧ Entered scope less other)

include well declared deep below

/-- A method comes from the body, or from one of the embedded interfaces. -/
theorem offered_of_below (mem : method ∈ methodSet scope (entryAt scope depth) file
      (some (.named scope.package name)) elements) :
    ∃ other receiver, ReflTransGen (Embeds scope) name other ∧
      Offers scope other receiver method ∧ method.signature.receiver = some receiver := by
  obtain ⟨written, own, same⟩ | ⟨-, tree, embedded, given, there, -, same⟩ :=
    get?_cases (mem_methodSet_iff.1 mem)
  · have offers : Offers scope name (.named scope.package name) method :=
      same ▸ .body declared own deep
    exact ⟨name, _, .refl, offers, offers.receiver_eq⟩
  · obtain ⟨target, leads, interface⟩ := well.interfaces _ _ _ _ declared embedded
    have embedsType : EmbedsType scope name target := ⟨_, _, _, declared, embedded, leads⟩
    subst same
    cases interface with
    | error =>
      rw [methodsAt_error leads deep] at there
      have offers : Offers scope name errorType given := .error embedsType there
      rw [offers.inherited_eq]
      exact ⟨name, _, .refl, offers, offers.receiver_eq⟩
    | own apart declared' =>
      have embeds : Embeds scope name _ := ⟨embedsType, apart, _, _, declared'⟩
      obtain ⟨less, rfl, entered⟩ := below embeds
      rw [methodsAt_own leads apart declared' deep] at there
      obtain ⟨last, receiver, reaches, offers, same⟩ := (entered declared').offered given there
      rw [offers.inherited_eq]
      exact ⟨last, receiver, .head embeds reaches, offers, same⟩
    | imported apart foreign listed =>
      rw [methodsAt_imported leads apart foreign listed deep] at there
      have offers := Offers.imported embedsType apart foreign listed there
      exact ⟨name, _, .refl, offers, offers.receiver_eq⟩

omit well in
/-- What an interface further down has is there under its name. -/
theorem complete_of_below {receiver : TypeExpr} (reaches : ReflTransGen (Embeds scope) name other)
    (offers : Offers scope other receiver method) :
    ∃ found ∈ methodSet scope (entryAt scope depth) file (some (.named scope.package name))
      elements, found.name = method.name := by
  obtain rfl | ⟨mid, embeds, reaches⟩ := ReflTransGen.cases_head reaches
  · cases offers with
    | body declared' own _ =>
      obtain ⟨rfl, rfl⟩ := declared.unique declared'
      exact ⟨_, own_mem_methodSet own, rfl⟩
    | error embeds mem =>
      obtain ⟨_, _, tree, declared', embedded, leads⟩ := embeds
      obtain ⟨rfl, rfl⟩ := declared.unique declared'
      rw [← methodsAt_error leads deep] at mem
      exact exists_mem_methodSet embedded mem
    | @imported _ _ _ given embeds apart foreign listed mem =>
      obtain ⟨_, _, tree, declared', embedded, leads⟩ := embeds
      obtain ⟨rfl, rfl⟩ := declared.unique declared'
      rw [← methodsAt_imported leads apart foreign listed deep] at mem
      have named : (inherited (some (.named scope.package name)) given).name = given.name := rfl
      rw [named]
      exact exists_mem_methodSet embedded mem
  · obtain ⟨_, _, tree, declared', embedded, leads⟩ := embeds.1
    obtain ⟨apart, inside, body, declaredMid⟩ := embeds.2
    obtain ⟨rfl, rfl⟩ := declared.unique declared'
    obtain ⟨less, rfl, entered⟩ := below embeds
    obtain ⟨found, mem, named⟩ := (entered declaredMid).complete other _ method reaches offers
    rw [← methodsAt_own leads apart declaredMid deep] at mem
    rw [← named]
    exact exists_mem_methodSet embedded mem

end

/-- An interface is entered deep enough when the depth allows for all aliases and for all
interfaces that it embeds. -/
theorem entered_of_reach (well : scope.EmbedsWell)
    (deep : scope.types.keys.length + reach (Embeds scope) scope.types.keys name ≤ depth) :
    Entered scope depth name := by
  -- each interface that is embedded leads to fewer others, and is entered one step further down
  induction far : reach (Embeds scope) scope.types.keys name using Nat.strong_induction_on
    generalizing name depth with
  | _ far' ih =>
    have enough : scope.types.keys.length ≤ depth := by omega
    have below : ∀ {other : String}, Embeds scope name other →
        ∃ less, depth = less + 1 ∧ Entered scope less other := by
      intro other embeds
      obtain ⟨inside, body, declared⟩ := embeds.2.2
      have mem : other ∈ scope.types.keys := (Table.mem_keys_iff ..).2 ⟨_, declared⟩
      have fewer := reach_lt_of_step embeds mem (well.acyclic other)
      obtain ⟨less, rfl⟩ : ∃ less, depth = less + 1 := ⟨depth - 1, by omega⟩
      exact ⟨less, rfl, ih _ (by omega) (by omega) rfl⟩
    intro file elements declared
    exact ⟨fun method mem => offered_of_below well declared enough below mem,
      fun other _ method reaches offers => complete_of_below declared enough below reaches offers⟩

/-! ## The interfaces of a package -/

/-- A type that is no alias is defined as what it is written as. -/
theorem get?_definitions (there : scope.types.get? name = some found)
    (plain : found.isAlias = false) :
    (Table.ofList (definitions scope scope.types.entries).value).get? name =
      some ⟨name, (underlying scope name found).value, []⟩ := by
  have nodup : (scope.types.entries.map Prod.fst).Nodup :=
    (Table.keys_increasing _).imp Table.ne_of_key_lt
  rw [value_definitions]
  refine (Table.get?_ofList_iff ?_).2 ?_
  · rw [List.map_map]
    exact (List.filter_sublist.map Prod.fst).nodup nodup
  · have mem := (Table.mem_entries_iff ..).2 there
    exact List.mem_map.2 ⟨_, List.mem_filter.2 ⟨mem, by simp [plain]⟩, rfl⟩

/-- The methods on the types of a package are added to its definitions. -/
theorem definitions_resolved (path package : String) (imported? : String → Option Checked)
    (files : List (SourceFile SourceTree)) :
    ∃ methods, (resolved path package imported? files).value.definitions =
      (Table.ofList (definitions (filesScope path imported? files)
        (filesScope path imported? files).types.entries).value).map (withMethods methods) := by
  rw [resolved_eq]
  exact ⟨_, rfl⟩

/-- The check of the files gives the package, with or without complaints. -/
def Reports (path : String) (files : List (SourceFile SourceTree))
    (imported? : String → Option Checked) (checked : Checked) : Prop :=
  Check.package path files imported? = .ok checked ∨
    ∃ message, Check.package path files imported? = .error (.errors message (some checked))

theorem reports_resolved {path : String} {first : SourceFile SourceTree}
    {rest : List (SourceFile SourceTree)} {imported? : String → Option Checked}
    (ends : Check.package path (first :: rest) imported? ≠ .error .unending) :
    Reports path (first :: rest) imported?
      (resolved path first.packageName imported? (first :: rest)).value := by
  rw [Ne, package_eq_unending_iff] at ends
  rw [Reports, Check.package]
  split
  · exact .inl rfl
  · exact .inr ⟨_, rfl⟩

/-- What an interface of a package lists: its methods and those of all that it embeds, in the
order of their names and each once. Its own methods win. -/
structure IsMethodSet (scope : Scope) (owner : String) (methods : List MethodExpr) : Prop
    extends Gathers scope owner methods where
  increasing : methods.Pairwise fun a b => a.name < b.name
  own : ∀ file elements name written, scope.Declares owner file elements →
    lastMethod? name elements = some written →
    bodyMethod scope scope.entry file (some (.named scope.package owner)) name written ∈ methods

theorem isMethodSet_of_embedsWell (well : scope.EmbedsWell)
    (declared : scope.Declares name file elements) :
    IsMethodSet scope name
      (methodSet scope scope.entry file (some (.named scope.package name)) elements) where
  toGathers := by
    have mem : name ∈ scope.types.keys := (Table.mem_keys_iff ..).2 ⟨_, declared⟩
    have short := reach_lt_length mem (well.acyclic name)
    have length : scope.types.keys.length = scope.types.entries.length := List.length_map ..
    exact entered_of_reach well (by omega) declared
  increasing := methodSet_increasing ..
  own file elements name written declared' last := by
    obtain ⟨rfl, rfl⟩ := declared.unique declared'
    exact own_mem_methodSet last

/-- Where the check ends, no interface embeds itself and all that is embedded are interfaces, the
check gives the package, and each of its interfaces is defined with the methods of all that it
embeds. -/
theorem methodSets_of_package (path : String) (first : SourceFile SourceTree)
    (rest : List (SourceFile SourceTree)) (imported? : String → Option Checked)
    (ends : Check.package path (first :: rest) imported? ≠ .error .unending)
    (well : (filesScope path imported? (first :: rest)).EmbedsWell) :
    ∃ checked, Reports path (first :: rest) imported? checked ∧
      ∀ name file elements,
        (filesScope path imported? (first :: rest)).Declares name file elements →
        ∃ definition methods, checked.definitions.get? name = some definition ∧
          definition.underlying = .interface methods ∧
          IsMethodSet (filesScope path imported? (first :: rest)) name methods := by
  refine ⟨_, reports_resolved ends, ?_⟩
  intro name file elements declared
  obtain ⟨others, listed⟩ := definitions_resolved path first.packageName imported? (first :: rest)
  have defined := congrArg (Option.map (withMethods others)) (get?_definitions declared rfl)
  rw [← Table.get?_map, ← listed] at defined
  exact ⟨_, _, defined, rfl, isMethodSet_of_embedsWell well declared⟩

/-! ## Examples -/

/-- A file of a package without comments. -/
def fileWith (package : String) (imports : List Import) (declarations : List NamedTree) :
    SourceFile SourceTree :=
  { path := ⟨package ++ ".go"⟩, packageName := package, doc := none, comments := []
    imports := imports.map (·.path), unit := { imports, declarations } }

/-- An interface that embeds another one, which embeds `error`. -/
def streamFile : SourceFile SourceTree :=
  fileWith "io" [] [
    ⟨"Closer", 2, .type (.interface [.embedded (.ident "error"),
      .method "Close" ⟨[], [], false⟩ 4]) false⟩,
    ⟨"ReadCloser", 6, .type (.interface [.method "Read" ⟨[], [], false⟩ 7,
      .embedded (.ident "Closer")]) false⟩]

def streamScope : Scope :=
  filesScope "io" (fun _ => none) [streamFile]

theorem entries_streamScope : streamScope.types.entries = [
    ("Closer", ⟨.interface [.embedded (.ident "error"),
      .method "Close" ⟨[], [], false⟩ 4], false, ⟨⟨"io.go"⟩, ∅⟩⟩),
    ("ReadCloser", ⟨.interface [.method "Read" ⟨[], [], false⟩ 7,
      .embedded (.ident "Closer")], false, ⟨⟨"io.go"⟩, ∅⟩⟩)] := by
  rfl

theorem declares_streamScope (declared : streamScope.Declares name file elements) :
    (name = "Closer" ∧ ∀ tree, .embedded tree ∈ elements → tree = .ident "error") ∨
      (name = "ReadCloser" ∧ ∀ tree, .embedded tree ∈ elements → tree = .ident "Closer") := by
  have mem := (Table.mem_entries_iff ..).2 declared
  rw [entries_streamScope] at mem
  simp only [List.mem_cons, Prod.mk.injEq, LocalType.mk.injEq, TypeTree.interface.injEq,
    List.not_mem_nil, or_false] at mem
  obtain ⟨rfl, rfl, -⟩ | ⟨rfl, rfl, -⟩ := mem
  · exact .inl ⟨rfl, by simp⟩
  · exact .inr ⟨rfl, by simp⟩

theorem leads_closer (file : FileScope) :
    Leads streamScope file (.ident "Closer") (.named "io" "Closer") :=
  .own (by decide) (rfl : streamScope.types.get? "Closer" = some _) rfl

theorem embedsWell_streamScope : streamScope.EmbedsWell := by
  have step : ∀ {name other}, Embeds streamScope name other →
      name = "ReadCloser" ∧ other = "Closer" := by
    rintro name other ⟨⟨file, elements, tree, declared, embedded, leads⟩, apart, -⟩
    obtain ⟨rfl, only⟩ | ⟨rfl, only⟩ := declares_streamScope declared
    · cases only tree embedded
      exact absurd (leads.unique (.error rfl)) apart
    · cases only tree embedded
      cases leads.unique (leads_closer file)
      exact ⟨rfl, rfl⟩
  constructor
  · intro name cycle
    obtain ⟨_, first, -⟩ := TransGen.head'_iff.1 cycle
    obtain ⟨_, -, last⟩ := TransGen.tail'_iff.1 cycle
    exact absurd ((step first).1.symm.trans (step last).2) (by decide)
  · intro name file elements tree declared embedded
    obtain ⟨rfl, only⟩ | ⟨rfl, only⟩ := declares_streamScope declared
    · cases only tree embedded
      exact ⟨_, .error rfl, .error⟩
    · cases only tree embedded
      have apart : TypeExpr.named "io" "Closer" ≠ errorType := by
        intro same
        exact absurd (TypeExpr.named.inj same).2 (by decide)
      exact ⟨_, leads_closer file, .own apart (rfl : streamScope.types.get? "Closer" = some _)⟩

/-- The example has no cycle, so its second interface has all methods. -/
theorem methodSets_of_package_stream :
    Check.package "io" [streamFile] (fun _ => none) ≠ .error .unending ∧
    streamScope.EmbedsWell ∧ ∃ checked, Reports "io" [streamFile] (fun _ => none) checked ∧
      ∃ definition methods, checked.definitions.get? "ReadCloser" = some definition ∧
        definition.underlying = .interface methods ∧
        IsMethodSet streamScope "ReadCloser" methods := by
  have ends : Check.package "io" [streamFile] (fun _ => none) ≠ .error .unending := by
    rw [Ne, package_eq_unending_iff, Bool.not_eq_true]
    rfl
  refine ⟨ends, embedsWell_streamScope, ?_⟩
  obtain ⟨checked, reports, defined⟩ :=
    methodSets_of_package "io" streamFile [] (fun _ => none) ends embedsWell_streamScope
  exact ⟨checked, reports,
    defined "ReadCloser" _ _ (rfl : streamScope.types.get? "ReadCloser" = some _)⟩

/-- A package that defines an interface by another name for its body. -/
def aliasFile : SourceFile SourceTree :=
  fileWith "q" [] [
    ⟨"A", 2, .type (.interface [.method "M" ⟨[], [], false⟩ 3]) true⟩,
    ⟨"T", 5, .type (.ident "A") false⟩]

/-- A package with an interface that embeds the one above, and has no method of its own. -/
def heirFile : SourceFile SourceTree :=
  fileWith "p" [⟨none, "q"⟩] [⟨"I", 3, .type (.interface [.embedded (.qualified "q" "T")]) false⟩]

def heirImports (literal : String) : Option Checked :=
  if literal = "q" then some (resolved "q" "q" (fun _ => none) [aliasFile]).value else none

def heirScope : Scope :=
  filesScope "p" heirImports [heirFile]

theorem declares_heirScope (declared : heirScope.Declares name file elements) :
    file = ⟨⟨"p.go"⟩, Table.ofList [("q", "q")]⟩ ∧ elements = [.embedded (.qualified "q" "T")] := by
  have entries : heirScope.types.entries = [("I", ⟨.interface [.embedded (.qualified "q" "T")],
      false, ⟨⟨"p.go"⟩, Table.ofList [("q", "q")]⟩⟩)] := rfl
  have mem := (Table.mem_entries_iff ..).2 declared
  rw [entries, List.mem_singleton] at mem
  cases mem
  exact ⟨rfl, rfl⟩

theorem embedsWell_heirScope : heirScope.EmbedsWell := by
  have leads : Leads heirScope ⟨⟨"p.go"⟩, Table.ofList [("q", "q")]⟩ (.qualified "q" "T")
      (.named "q" "T") := .imported
  have apart : TypeExpr.named "q" "T" ≠ errorType := by
    intro same
    exact absurd (TypeExpr.named.inj same).2 (by decide)
  constructor
  · intro name cycle
    obtain ⟨other, ⟨⟨file, elements, tree, declared, embedded, leads'⟩, -⟩, -⟩ :=
      TransGen.head'_iff.1 cycle
    obtain ⟨rfl, rfl⟩ := declares_heirScope declared
    cases List.mem_singleton.1 embedded
    have same := (TypeExpr.named.inj (leads.unique leads')).1
    exact absurd same (by decide)
  · intro name file elements tree declared embedded
    obtain ⟨rfl, rfl⟩ := declares_heirScope declared
    cases List.mem_singleton.1 embedded
    exact ⟨_, leads, .imported apart (by decide)
      (rfl : importedMethods? heirScope "q" "T" = some _)⟩

/-- The interface is given as the receiver of a method that is not in its body, and that the
interface it comes from has without a receiver. -/
theorem receiver_of_heir : heirScope.EmbedsWell ∧
    Reports "p" [heirFile] heirImports (resolved "p" "p" heirImports [heirFile]).value ∧
    importedMethods? heirScope "q" "T" =
      some [⟨"M", some ⟨⟨"q.go"⟩, 3⟩, ⟨none, [], [], false⟩⟩] ∧
    ((resolved "p" "p" heirImports [heirFile]).value.definitions.get? "I").map (·.underlying) =
      some (.interface [⟨"M", some ⟨⟨"q.go"⟩, 3⟩, ⟨some (.named "p" "I"), [], [], false⟩⟩]) ∧
    ∀ file elements, heirScope.Declares "I" file elements → lastMethod? "M" elements = none := by
  have ends : Check.package "p" [heirFile] heirImports ≠ .error .unending := by
    rw [Ne, package_eq_unending_iff, Bool.not_eq_true]
    rfl
  refine ⟨embedsWell_heirScope, reports_resolved ends, rfl, rfl, ?_⟩
  intro file elements declared
  obtain ⟨-, rfl⟩ := declares_heirScope declared
  rfl

end GoAtlas.Check
