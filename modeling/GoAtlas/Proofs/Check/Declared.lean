import GoAtlas.Proofs.Check.Passes

/-!
# The declarations of a checked package

A check lists the declarations of all files in order: each tree other than a method gives
one declaration, at its own line (`mem_declarations_iff`). A type that is no alias is
declared as itself, and has a definition. Where nothing is complained of no two types have
one name, aliases included (`Lists`).
-/

namespace GoAtlas

/-- The name of a declaration that declares a type. -/
def Declaration.typeName? (declaration : Declaration) : Option String :=
  match declaration.declared with
  | .type _ => some declaration.name
  | _ => none

namespace Check

variable {imported? : String → Option Checked} {scope : Scope} {package : String}
  {files : List (SourceFile SourceTree)} {checked : Checked} {declaration : Declaration}

/-! ## Declarations -/

theorem mem_declarations_iff :
    declaration ∈ (declarations scope (scopedFiles imported? files)).value ↔
      ∃ file ∈ files, ∃ tree ∈ file.unit.declarations,
        (declarationOf scope (fileScope imported? file).value tree).value = some declaration := by
  rw [declarations_eq]
  refine List.mem_filterMap.trans ⟨?_, ?_⟩
  · rintro ⟨⟨inside, tree⟩, mem, value⟩
    obtain ⟨file, among, listed, rfl⟩ := mem_trees_iff.1 mem
    exact ⟨file, among, tree, listed, value⟩
  · rintro ⟨file, among, tree, listed, value⟩
    exact ⟨_, mem_trees_iff.2 ⟨file, among, listed, rfl⟩, value⟩

/-- A tree that is no method gives a declaration of its name, at its line. -/
theorem declarationOf_eq_some {file : FileScope} {tree : NamedTree}
    (declared : (declarationOf scope file tree).value = some declaration) :
    declaration.name = tree.name ∧
      declaration.pos = some { file := file.path, line := tree.line } := by
  obtain ⟨called, line, what⟩ := tree
  cases what with
  | type type isAlias => cases isAlias <;> cases declared <;> exact ⟨rfl, rfl⟩
  | func receiver signature =>
    cases receiver with
    | none =>
      cases declared
      exact ⟨rfl, rfl⟩
    | some receiver => cases declared
  | var type =>
    cases declared
    exact ⟨rfl, rfl⟩
  | const type untyped => cases type <;> cases declared <;> exact ⟨rfl, rfl⟩

theorem typeName?_declarationOf (scope : Scope) (file : FileScope) (tree : NamedTree) :
    (declarationOf scope file tree).value.bind Declaration.typeName? = tree.typeName? := by
  obtain ⟨called, line, what⟩ := tree
  cases what with
  | type type isAlias => cases isAlias <;> rfl
  | func receiver signature => cases receiver <;> rfl
  | var type => rfl
  | const type untyped => cases type <;> rfl

theorem typeNames_declarations (scope : Scope) (inFiles : ScopedFiles) :
    (declarations scope inFiles).value.filterMap Declaration.typeName? =
      (typeEntries inFiles).map Prod.fst := by
  simp only [declarations_eq, Reported.each, List.filterMap_filterMap, typeName?_declarationOf,
    typeEntries, List.map_filterMap, name_localType?]

/-- What a package lists of its files. -/
structure Lists (package : String) (files : List (SourceFile SourceTree)) (checked : Checked) :
    Prop where
  /-- A type that is no alias is declared as itself. -/
  types : ∀ file ∈ files, ∀ name line tree,
    ⟨name, line, .type tree false⟩ ∈ file.unit.declarations →
    { name, pos := some { file := file.path, line }, declared := .type (.named package name) }
      ∈ checked.declarations
  functions : ∀ file ∈ files, ∀ name line signature,
    ⟨name, line, .func none signature⟩ ∈ file.unit.declarations →
    ∃ resolved, resolved.receiver = none ∧
      { name, pos := some { file := file.path, line }, declared := .func resolved }
        ∈ checked.declarations
  /-- A function that is listed is declared in a file. -/
  origin : ∀ declaration ∈ checked.declarations, ∀ signature,
    declaration.declared = .func signature →
    ∃ file ∈ files, ∃ line tree,
      ⟨declaration.name, line, .func none tree⟩ ∈ file.unit.declarations ∧
      declaration.pos = some { file := file.path, line }
  nodup : (checked.declarations.filterMap Declaration.typeName?).Nodup
  /-- A type that is defined is declared as itself. -/
  defined : ∀ name, checked.definitions.contains name = true →
    ∃ declaration ∈ checked.declarations, declaration.name = name ∧
      declaration.declared = .type (.named package name)

theorem lists_of_package (ok : Check.package package files imported? = .ok checked) :
    Lists package files checked := by
  obtain ⟨scope, h⟩ := resolves_of_package ok
  obtain rfl := h.own
  have member : ∀ declaration, declaration ∈ checked.declarations ↔
      ∃ file ∈ files, ∃ tree ∈ file.unit.declarations,
        (declarationOf scope (fileScope imported? file).value tree).value = some declaration := by
    intro declaration
    rw [h.declarations, mem_declarations_iff]
  have types : ∀ file ∈ files, ∀ name line tree,
      ⟨name, line, .type tree false⟩ ∈ file.unit.declarations →
      { name, pos := some { file := file.path, line },
        declared := .type (.named scope.package name) } ∈ checked.declarations := by
    intro file mem name line tree declared
    exact (member _).2 ⟨file, mem, _, declared, rfl⟩
  refine ⟨types, fun file mem name line signature declared => ?_,
    fun declaration mem signature func => ?_, ?_, fun name there => ?_⟩
  · refine ⟨(resolveSignature scope scope.entry (fileScope imported? file).value none
      signature).value, ?_, (member _).2 ⟨file, mem, _, declared, rfl⟩⟩
    obtain ⟨params, results, variadic⟩ := signature
    rw [resolveSignature]
    rfl
  · obtain ⟨file, mem, tree, declared, value⟩ := (member declaration).1 mem
    obtain ⟨name, pos⟩ := declarationOf_eq_some value
    refine ⟨file, mem, tree.line, ?_⟩
    obtain ⟨called, line, what⟩ := tree
    cases what with
    | func receiver written =>
      cases receiver with
      | none => exact ⟨written, name ▸ declared, pos⟩
      | some receiver => cases value
    | type type isAlias => cases isAlias <;> cases value <;> cases func
    | var type =>
      cases value
      cases func
    | const type untyped => cases type <;> cases value <;> cases func
  · rw [h.declarations, typeNames_declarations]
    exact (silent_packageTypes_iff.1 h.silentTypes).1
  · rw [h.definitions, Table.contains, Table.get?_map, Option.isSome_map] at there
    obtain ⟨definition, found⟩ := Option.isSome_iff_exists.1 there
    obtain ⟨declared, mem, plain, -⟩ := mem_definitions_iff.1 (Table.mem_of_get?_ofList found)
    rw [h.types, Table.mem_entries_iff] at mem
    obtain ⟨line, inside⟩ := mem_of_get?_packageTypes mem
    obtain ⟨file, among, tree, -⟩ := mem_trees_iff.1 inside
    exact ⟨_, types file among name line declared.tree (plain ▸ tree), rfl, rfl⟩

end Check

end GoAtlas
