import GoAtlas.Proofs.Check.Declared
import GoAtlas.Proofs.TypeExpr.Leaves

/-!
# What a clean check refers to

Types come together from many places: names of the package and of its imports, aliases that
are written in other files, declarations copied out of imported packages, inherited methods
and receivers. Each of these places either complains or gives a type all of whose leaves are
known. `Reported.Yields` says so of one step: where nothing is complained of, the value is
good.

A property of leaves is carried through resolving (`yields_resolve`, along the written type)
and through the entering of aliases and interfaces (`sound_entryAt`, along the depth). What it
takes for a package is said in `every_of_package`: the property has to hold of primitives, of
`error`, of what the package itself defines, and of all that it imports.
-/

namespace GoAtlas.Check

variable {α β : Type} {p : TypeExpr → Prop} {scope : Scope} {entry : Entry} {file : FileScope}
variable {checked : Checked}

/-! ## Values without complaints -/

/-- Where nothing is complained of, the value has the property. -/
def Reported.Yields (reported : Reported α) (good : α → Prop) : Prop :=
  reported.complaints = [] → good reported.value

theorem yields_pure {good : α → Prop} {value : α} (h : good value) :
    (pure value : Reported α).Yields good :=
  fun _ => h

theorem Reported.Yields.bind {first : Reported α} {next : α → Reported β} {good : α → Prop}
    {better : β → Prop} (h : first.Yields good)
    (h' : ∀ value, good value → (next value).Yields better) :
    (first >>= next).Yields better := by
  intro silent
  rw [complaints_bind, List.append_eq_nil_iff] at silent
  exact h' first.value (h silent.1) silent.2

theorem yields_complain {complaint : Complaint} {next : Unit → Reported α} {good : α → Prop} :
    (Reported.complain complaint >>= next).Yields good := by
  intro silent
  rw [Reported.complaints_bind] at silent
  cases silent

theorem Reported.Yields.each {f : α → Reported (Option β)} {members : List α} {good : β → Prop}
    (h : ∀ a ∈ members, (f a).Yields fun found => ∀ b ∈ found.toList, good b) :
    (Reported.each f members).Yields fun found => ∀ b ∈ found, good b := by
  intro silent b mem
  obtain ⟨a, inside, value⟩ := List.mem_filterMap.1 mem
  exact h a inside (List.flatMap_eq_nil_iff.1 silent a inside) b (Option.mem_toList.2 value)

/-! ## Resolving -/

/-- Every import of the file leads to a package. -/
def Scope.Gives (scope : Scope) (file : FileScope) : Prop :=
  ∀ name literal, file.imports.get? name = some literal →
    (scope.imported? literal).isSome = true

/-- What names can come to in the scope has the property. -/
structure Scope.Sound (scope : Scope) (p : TypeExpr → Prop) : Prop where
  basic : ∀ name ∈ basicNames, p (.basic name)
  error : p errorType
  own : ∀ name declared, scope.types.get? name = some declared → declared.isAlias = false →
    p (.named scope.package name)
  files : ∀ name declared, scope.types.get? name = some declared → scope.Gives declared.file
  imported : ∀ literal checked, scope.imported? literal = some checked → checked.Every p

/-- What declared types are entered as has the property. -/
structure Entry.Sound (entry : Entry) (scope : Scope) (p : TypeExpr → Prop) : Prop where
  ofAlias : ∀ found, scope.Gives found.file → (entry.ofAlias found).Yields (·.Every p)
  ofInterface : ∀ owner file elements, owner.Every p → scope.Gives file →
    (entry.ofInterface owner file elements).Yields (EveryMethod p)

theorem every_of_declaredType? {name : String} {type : TypeExpr} (every : checked.Every p)
    (found : declaredType? checked name = some type) : type.Every p := by
  obtain ⟨declaration, mem, here⟩ := List.exists_of_findSome?_eq_some found
  have declared := every.declarations declaration mem
  split at here
  · next what =>
    rw [what] at declared
    split at here
    · cases here
      exact declared
    · cases here
  · cases here

theorem every_of_importedByPath? {path : String} (sound : scope.Sound p)
    (found : importedByPath? scope path = some checked) : checked.Every p := by
  have mem := List.mem_of_find?_eq_some found
  obtain ⟨file, -, mem⟩ := List.mem_flatMap.1 mem
  obtain ⟨literal, -, given⟩ := List.mem_filterMap.1 mem
  exact sound.imported literal checked given

theorem everyMethod_errorMethods (basic : ∀ name ∈ basicNames, p (.basic name))
    (error : p errorType) : EveryMethod p errorMethods :=
  ⟨⟨error, trivial, basic "string" (by decide), trivial⟩, trivial⟩

section

variable (sound : scope.Sound p) (enter : entry.Sound scope p)
variable {set : Table MethodExpr} {owner : Option TypeExpr} {method : MethodExpr}

include sound enter in
theorem yields_resolveIdent (file : FileScope) (name : String) :
    (resolveIdent scope entry file name).Yields (·.Every p) := by
  unfold resolveIdent
  split
  · next basic => exact yields_pure (sound.basic name (List.contains_iff_mem.1 basic))
  · cases there : scope.types.get? name with
    | some found =>
      dsimp only
      split
      · exact enter.ofAlias found (sound.files name found there)
      · next plain => exact yields_pure (sound.own name found there (eq_false_of_ne_true plain))
    | none =>
      dsimp only
      split
      · exact yields_pure sound.error
      · split
        · exact yields_pure trivial
        · exact yields_complain

include sound in
theorem yields_resolveQualified (given : scope.Gives file) (package name : String) :
    (resolveQualified scope file package name).Yields (·.Every p) := by
  unfold resolveQualified
  cases there : file.imports.get? package with
  | none => exact yields_complain
  | some literal =>
    have given := given package literal there
    dsimp only
    cases found : scope.imported? literal with
    | none =>
      rw [found] at given
      cases given
    | some checked =>
      dsimp only
      cases declared : declaredType? checked name with
      | some type =>
        exact yields_pure (every_of_declaredType? (sound.imported literal checked found) declared)
      | none => exact yields_complain

include sound enter in
theorem yields_embeddedMethods {type : TypeExpr} (every : type.Every p) (file : FileScope) :
    (embeddedMethods scope entry file type).Yields (EveryMethod p) := by
  cases type with
  | interface methods => exact yields_pure every
  | named package name =>
    simp only [embeddedMethods]
    split
    · exact yields_pure (everyMethod_errorMethods sound.basic sound.error)
    · split
      · next own =>
        subst own
        split
        · next there => exact enter.ofInterface _ _ _ every (sound.files _ _ there)
        · exact yields_complain
      · split
        · next methods _ found =>
          obtain ⟨checked, imported, there⟩ := Option.bind_eq_some_iff.1 found
          have defined := (every_of_importedByPath? sound imported).definitions name _ there
          exact yields_pure defined.underlying
        · exact yields_complain
  | other description => exact yields_pure trivial
  | _ => exact yields_complain

/-- The property holds of every leaf of the methods in the table. -/
def EveryIn (p : TypeExpr → Prop) (set : Table MethodExpr) : Prop :=
  ∀ name method, set.get? name = some method → method.Every p

theorem everyIn_empty : EveryIn p ∅ := by
  intro name method there
  rw [Table.get?_empty] at there
  cases there

theorem EveryIn.values (h : EveryIn p set) : EveryMethod p set.values := by
  rw [everyMethod_iff]
  intro method mem
  obtain ⟨name, there⟩ := (Table.mem_values_iff set method).1 mem
  exact h name method there

theorem EveryIn.insert {name : String} (h : EveryIn p set) (every : method.Every p) :
    EveryIn p (set.insert name method) := by
  intro other found there
  rw [Table.get?_insert] at there
  split at there
  · cases there
    exact every
  · exact h other found there

theorem every_inherited (receiver : EveryReceiver p owner) (every : method.Every p) :
    (inherited owner method).Every p := by
  obtain ⟨name, pos, declared, params, results, variadic⟩ := method
  cases declared with
  | none => exact ⟨receiver, every.2⟩
  | some declared => exact every

theorem EveryIn.inherit {methods : List MethodExpr} (h : EveryIn p set)
    (receiver : EveryReceiver p owner) (every : EveryMethod p methods) :
    EveryIn p (Check.inherit owner set methods) := by
  induction methods generalizing set with
  | nil => exact h
  | cons first rest ih =>
    refine ih ?_ every.2
    show EveryIn p (set.insertIfNew first.name (inherited owner first))
    rw [Table.insertIfNew]
    split
    · exact h
    · exact h.insert (every_inherited receiver every.1)

/-- What names can come to in the file has the property. -/
structure Resolving (scope : Scope) (entry : Entry) (file : FileScope) (p : TypeExpr → Prop) :
    Prop where
  sound : scope.Sound p
  enter : entry.Sound scope p
  given : scope.Gives file

mutual

/-- A type that is resolved without complaints has the property at every leaf. -/
theorem yields_resolve (fit : Resolving scope entry file p) : ∀ tree : TypeTree,
    (resolve scope entry file tree).Yields (·.Every p)
  | .ident name => yields_resolveIdent fit.sound fit.enter file name
  | .qualified package name => yields_resolveQualified fit.sound fit.given package name
  | .pointer elem => (yields_resolve fit elem).bind fun _ h => yields_pure h
  | .slice elem => (yields_resolve fit elem).bind fun _ h => yields_pure h
  | .array _ elem => (yields_resolve fit elem).bind fun _ h => yields_pure h
  | .chan _ elem => (yields_resolve fit elem).bind fun _ h => yields_pure h
  | .map key elem => (yields_resolve fit key).bind fun _ first =>
      (yields_resolve fit elem).bind fun _ second => yields_pure ⟨first, second⟩
  | .func signature =>
    (yields_resolveSignature fit none trivial signature).bind fun _ h => yields_pure h
  | .struct fields => (yields_resolveFields fit fields).bind fun _ h => yields_pure h
  | .interface elements =>
    (yields_resolveElements fit none trivial elements everyIn_empty).bind
      fun _ h => yields_pure h.values

theorem yields_resolveAll (fit : Resolving scope entry file p) : ∀ types : List TypeTree,
    (resolveAll scope entry file types).Yields (EveryType p)
  | [] => yields_pure trivial
  | first :: rest =>
    (yields_resolve fit first).bind fun _ first =>
      (yields_resolveAll fit rest).bind fun _ rest => yields_pure ⟨first, rest⟩

theorem yields_resolveSignature (fit : Resolving scope entry file p)
    (receiver : Option TypeExpr) (every : EveryReceiver p receiver) : ∀ signature : SignatureTree,
    (resolveSignature scope entry file receiver signature).Yields (·.Every p)
  | ⟨params, results, _⟩ =>
    (yields_resolveAll fit params).bind fun _ params =>
      (yields_resolveAll fit results).bind fun _ results =>
        yields_pure ⟨every, params, results⟩

theorem yields_resolveFields (fit : Resolving scope entry file p) : ∀ fields : List FieldTree,
    (resolveFields scope entry file fields).Yields (EveryField p)
  | [] => yields_pure trivial
  | ⟨_, _, _, type, _⟩ :: rest =>
    (yields_resolve fit type).bind fun _ first =>
      (yields_resolveFields fit rest).bind fun _ rest => yields_pure ⟨first, rest⟩

theorem yields_resolveElements (fit : Resolving scope entry file p)
    (owner : Option TypeExpr) (receiver : EveryReceiver p owner) :
    ∀ (elements : List ElementTree) {set : Table MethodExpr}, EveryIn p set →
    (resolveElements scope entry file owner elements set).Yields (EveryIn p)
  | [], _ => yields_pure
  | .method _ signature _ :: rest, _ => fun h =>
    (yields_resolveSignature fit owner receiver signature).bind fun _ every =>
      yields_resolveElements fit owner receiver rest (h.insert every)
  | .embedded type :: rest, _ => fun h =>
    (yields_resolve fit type).bind fun _ every =>
      (yields_embeddedMethods fit.sound fit.enter every file).bind fun _ methods =>
        yields_resolveElements fit owner receiver rest (h.inherit receiver methods)

end

end

theorem sound_entryAt (sound : scope.Sound p) (depth : Nat) :
    (entryAt scope depth).Sound scope p := by
  induction depth with
  | zero => exact ⟨fun _ _ => yields_complain, fun _ _ _ _ _ => yields_complain⟩
  | succ depth ih =>
    refine ⟨fun found given => ?_, fun owner file elements every given => ?_⟩
    · exact yields_resolve ⟨sound, ih, given⟩ found.tree
    · exact (yields_resolveElements ⟨sound, ih, given⟩ (some owner) every elements
        everyIn_empty).bind fun _ h => yields_pure h.values

theorem sound_entry (sound : scope.Sound p) : scope.entry.Sound scope p :=
  sound_entryAt sound _

/-! ## Declarations, definitions and methods -/

/-- A type that the tree declares as itself has the property. -/
def Scope.Owns (scope : Scope) (p : TypeExpr → Prop) (tree : NamedTree) : Prop :=
  ∀ type, tree.declaration = .type type false → p (.named scope.package tree.name)

section

variable (sound : scope.Sound p)
variable {inFiles : ScopedFiles}

include sound

section

variable (untyped : ∀ kind : Untyped, p (.basic kind.text))

include untyped

theorem yields_declarationOf (given : scope.Gives file) {tree : NamedTree}
    (own : scope.Owns p tree) :
    (declarationOf scope file tree).Yields fun found =>
      ∀ declaration ∈ found.toList, declaration.declared.Every p := by
  have resolves := yields_resolve ⟨sound, sound_entry sound, given⟩
  obtain ⟨name, line, what⟩ := tree
  cases what with
  | type type isAlias =>
    cases isAlias with
    | false => exact yields_pure (List.forall_mem_singleton.2 (own type rfl))
    | true => exact (resolves type).bind fun _ h => yields_pure (List.forall_mem_singleton.2 h)
  | func receiver signature =>
    cases receiver with
    | some receiver => exact yields_pure (List.forall_mem_nil _)
    | none =>
      exact (yields_resolveSignature ⟨sound, sound_entry sound, given⟩ none trivial signature).bind
        fun _ h => yields_pure (List.forall_mem_singleton.2 h)
  | var type => exact (resolves type).bind fun _ h => yields_pure (List.forall_mem_singleton.2 h)
  | const type kind =>
    cases type with
    | none => exact yields_pure (List.forall_mem_singleton.2 (untyped kind))
    | some type =>
      exact (resolves type).bind fun _ h => yields_pure (List.forall_mem_singleton.2 h)

theorem yields_declarations (given : ∀ entry ∈ trees inFiles, scope.Gives entry.1)
    (own : ∀ entry ∈ trees inFiles, scope.Owns p entry.2) :
    (declarations scope inFiles).Yields fun found =>
      ∀ declaration ∈ found, declaration.declared.Every p := by
  rw [declarations_eq]
  exact .each fun entry mem => yields_declarationOf sound untyped (given entry mem) (own entry mem)

end

theorem yields_underlying {name : String} {declared : LocalType}
    (there : scope.types.get? name = some declared) (plain : declared.isAlias = false) :
    (underlying scope name declared).Yields (·.Every p) := by
  have given := sound.files name declared there
  unfold underlying
  split
  · next elements _ =>
    exact (yields_resolveElements ⟨sound, sound_entry sound, given⟩
      (some (.named scope.package name)) (sound.own name declared there plain) elements
        everyIn_empty).bind fun _ h => yields_pure h.values
  · exact yields_resolve ⟨sound, sound_entry sound, given⟩ _

theorem yields_definitions {entries : List (String × LocalType)}
    (there : ∀ entry ∈ entries, scope.types.get? entry.1 = some entry.2) :
    (definitions scope entries).Yields fun found => ∀ entry ∈ found, entry.2.Every p := by
  rw [definitions_eq]
  refine .each fun entry mem => ?_
  obtain ⟨mem, plain⟩ := List.mem_filter.1 mem
  exact (yields_underlying sound (there entry mem) (by simpa using plain)).bind fun _ every =>
    yields_pure (List.forall_mem_singleton.2 ⟨every, List.forall_mem_nil _⟩)

theorem yields_methodOf (given : scope.Gives file) (tree : NamedTree) :
    (methodOf scope file tree).Yields fun found =>
      ∀ method ∈ found.toList, method.2.Every p := by
  unfold methodOf
  split
  · split
    · exact yields_complain
    · exact (yields_resolve ⟨sound, sound_entry sound, given⟩ _).bind fun _ receiver =>
        (yields_resolveSignature ⟨sound, sound_entry sound, given⟩ (some _) receiver _).bind
          fun _ signature => yields_pure (List.forall_mem_singleton.2 signature)
  · exact yields_pure (List.forall_mem_nil _)

theorem yields_methods (given : ∀ entry ∈ trees inFiles, scope.Gives entry.1) :
    (methods scope inFiles).Yields fun found => ∀ method ∈ found, method.2.Every p := by
  rw [methods_eq]
  exact .each fun entry mem => yields_methodOf sound (given entry mem) entry.2

end

theorem every_withMethods {methods : List (String × MethodExpr)} {definition : Definition}
    (every : definition.Every p) (all : ∀ method ∈ methods, method.2.Every p) :
    (withMethods methods definition).Every p where
  underlying := every.underlying
  methods method mem := by
    rw [withMethods, List.mem_mergeSort] at mem
    obtain ⟨entry, inside, rfl⟩ := List.mem_map.1 mem
    exact all entry (List.mem_filter.1 inside).1

/-! ## The scope of a package -/

section

variable {imported? : String → Option Checked} {package first name : String}
  {files : List (SourceFile SourceTree)} {declared : LocalType} {definition : Definition}

namespace Resolves

variable (h : Resolves package files imported? scope checked) {tree : NamedTree}

include h

/-- A file that is not complained of has every import given. -/
theorem gives (mem : (file, tree) ∈ trees (scopedFiles imported? files)) : scope.Gives file := by
  obtain ⟨source, among, -, rfl⟩ := mem_trees_iff.1 mem
  intro name literal there
  obtain ⟨import_, inside, same⟩ := List.mem_map.1 (Table.mem_of_get?_ofList there)
  cases same
  rw [h.imported]
  exact fileScope_eq_nil (h.silentFiles source among) inside

/-- A type that is no alias is defined. -/
theorem contains (there : scope.types.get? name = some declared)
    (plain : declared.isAlias = false) : checked.definitions.contains name = true := by
  rw [h.definitions, Table.contains, Table.get?_map, Option.isSome_map]
  exact Table.contains_ofList
    (mem_definitions_iff.2 ⟨declared, (Table.mem_entries_iff ..).2 there, plain, rfl⟩)

theorem sound (basic : ∀ name ∈ basicNames, p (.basic name)) (error : p errorType)
    (own : ∀ name, checked.definitions.contains name = true → p (.named package name))
    (imported : ∀ literal other, imported? literal = some other → other.Every p) :
    scope.Sound p := by
  refine ⟨basic, error, fun name declared there plain => ?_, fun name declared there => ?_, ?_⟩
  · rw [h.own]
    exact own name (h.contains there plain)
  · rw [h.types] at there
    obtain ⟨line, mem⟩ := mem_of_get?_packageTypes there
    exact h.gives mem
  · rw [h.imported]
    exact imported

theorem owns (sound : scope.Sound p) (mem : (file, tree) ∈ trees (scopedFiles imported? files)) :
    scope.Owns p tree := by
  intro type plain
  obtain ⟨name, line, what⟩ := tree
  cases plain
  have there := get?_packageTypes_of_mem mem h.silentTypes
  rw [← h.types] at there
  exact sound.own name _ there rfl

end Resolves

theorem name_of_package (ok : Check.package package files imported? = .ok checked)
    (there : checked.definitions.get? name = some definition) : definition.name = name := by
  obtain ⟨scope, h⟩ := resolves_of_package ok
  rw [h.definitions, Table.get?_map] at there
  obtain ⟨plain, found, rfl⟩ := Option.map_eq_some_iff.1 there
  obtain ⟨declared, -, -, rfl⟩ := mem_definitions_iff.1 (Table.mem_of_get?_ofList found)
  rfl

/-- A property that holds of the primitives, of `error`, of the types that a package defines
and of all that it imports, holds of every leaf of the package if its check is clean. -/
theorem every_of_package (ok : Check.package package files imported? = .ok checked)
    (basic : ∀ name ∈ basicNames, p (.basic name))
    (untyped : ∀ kind : Untyped, p (.basic kind.text)) (error : p errorType)
    (own : ∀ name, checked.definitions.contains name = true → p (.named package name))
    (imported : ∀ literal other, imported? literal = some other → other.Every p) :
    checked.Every p := by
  obtain ⟨scope, h⟩ := resolves_of_package ok
  have sound := h.sound basic error own imported
  refine ⟨?_, fun name definition there => ?_⟩
  · rw [h.declarations]
    exact yields_declarations sound untyped (fun entry mem => h.gives mem)
      (fun entry mem => h.owns sound mem) h.silentDeclarations
  · rw [h.definitions, Table.get?_map] at there
    obtain ⟨plain, found, rfl⟩ := Option.map_eq_some_iff.1 there
    refine every_withMethods ?_
      (yields_methods sound (fun entry mem => h.gives mem) h.silentMethods)
    have all := yields_definitions sound
      (fun entry mem => (Table.mem_entries_iff ..).1 mem) h.silentDefinitions
    exact all (name, plain) (Table.mem_of_get?_ofList found)

end

end GoAtlas.Check
