import GoAtlas.Proofs.Session.Reading
import GoAtlas.Proofs.Table
import GoAtlas.Source.Frontend

/-!
# The passes of a check

A check passes over the trees of all files three times: for the types, for the declarations
and for the methods. Before that each file is given its imports, and one that is missing is
complained of. Each pass looks at one tree after the other, in the scope of its own file
(`trees`), and takes together what they give and what is complained of (`Reported.each`). The
types make one table, and nothing is complained of exactly if no name is declared twice
(`silent_packageTypes_iff`). It is passed over in turn, for the definitions.

A check succeeds exactly if the files name one package and no pass complains
(`package_eq_ok_iff`). Where two ways to enter the declared types compare, so do the types
that are resolved by them (`Matches.resolve`).
-/

namespace GoAtlas

/-- The name of a tree that declares a type. -/
def NamedTree.typeName? (tree : NamedTree) : Option String :=
  match tree.declaration with
  | .type _ _ => some tree.name
  | _ => none

theorem NamedTree.type_or_other (tree : NamedTree) :
    tree.typeName? = none ∨ ∃ name line type isAlias, tree = ⟨name, line, .type type isAlias⟩ := by
  obtain ⟨name, line, what⟩ := tree
  cases what with
  | type type isAlias => exact .inr ⟨name, line, type, isAlias, rfl⟩
  | _ => exact .inl rfl

namespace Check

variable {imported? : String → Option Checked} {scope : Scope} {file : FileScope}
  {package name : String} {files : List (SourceFile SourceTree)} {checked : Checked}
variable {types : Table LocalType} {inFiles : ScopedFiles} {declared : LocalType}
  {names : List String}

namespace Reported

variable {α β γ : Type}

theorem complaints_bind (first : Reported α) (next : α → Reported β) :
    (first >>= next).complaints = first.complaints ++ (next first.value).complaints := rfl

/-- What all members of a list give, with all complaints. -/
def each (f : α → Reported (Option β)) (members : List α) : Reported (List β) :=
  { value := members.filterMap fun member => (f member).value
    complaints := members.flatMap fun member => (f member).complaints }

theorem each_cons (f : α → Reported (Option β)) (first : α) (rest : List α) :
    each f (first :: rest) = do
      let one ← f first
      let more ← each f rest
      return one.toList ++ more := by
  simp only [each, bind, pure, List.flatMap_cons, List.append_nil, List.filterMap_cons]
  cases (f first).value <;> rfl

theorem each_append (f : α → Reported (Option β)) (first rest : List α) :
    each f (first ++ rest) = do
      let some ← each f first
      let more ← each f rest
      return some ++ more := by
  simp only [each, bind, pure, List.filterMap_append, List.flatMap_append, List.append_nil]

theorem each_map (f : α → Reported (Option β)) (g : γ → α) (members : List γ) :
    each f (members.map g) = each (fun member => f (g member)) members := by
  simp only [each, List.filterMap_map, List.flatMap_map, Function.comp_def]

end Reported

/-! ## Files -/

section

variable {file : SourceFile SourceTree}

theorem fileScope_eq_nil (none : (fileScope imported? file).complaints = []) {import_ : Import}
    (mem : import_ ∈ file.unit.imports) : (imported? import_.path).isSome = true := by
  have given := List.filterMap_eq_nil_iff.1 none import_ mem
  by_contra missing
  rw [if_neg missing] at given
  cases given

theorem complaints_fileScopes_cons (package first : String) (file : SourceFile SourceTree)
    (rest : List (SourceFile SourceTree)) :
    (fileScopes imported? package first (file :: rest)).complaints =
      (if file.packageName ≠ first then [.packageNames first file.packageName package] else []) ++
        ((fileScope imported? file).complaints ++
          (fileScopes imported? package first rest).complaints) := by
  have scopes : (do
      let scope ← fileScope imported? file
      let scopes ← fileScopes imported? package first rest
      return scope :: scopes : Reported (List FileScope)).complaints =
        (fileScope imported? file).complaints ++
          (fileScopes imported? package first rest).complaints := by
    rw [Reported.complaints_bind, Reported.complaints_bind]
    exact congrArg _ (List.append_nil _)
  rw [fileScopes]
  split
  · rw [Reported.complaints_bind]
    exact congrArg _ scopes
  · exact scopes

theorem fileScopes_eq_nil_iff {package first : String} {files : List (SourceFile SourceTree)} :
    (fileScopes imported? package first files).complaints = [] ↔
      ∀ file ∈ files, file.packageName = first ∧ (fileScope imported? file).complaints = [] := by
  induction files with
  | nil => simp [fileScopes, pure]
  | cons file rest ih =>
    rw [complaints_fileScopes_cons, List.append_eq_nil_iff, List.append_eq_nil_iff, ih,
      List.forall_mem_cons, ← and_assoc]
    refine and_congr_left' (and_congr_left' ?_)
    split
    · next other =>
      exact ⟨fun silent => (List.cons_ne_nil _ _ silent).elim, fun same => absurd same other⟩
    · next same => exact ⟨fun _ => Classical.not_not.1 same, fun _ => rfl⟩

end

/-! ## Passes over the trees -/

/-- The trees of all files, each with the scope it is read in. -/
def trees (inFiles : ScopedFiles) : List (FileScope × NamedTree) :=
  inFiles.flatMap fun entry => entry.2.map fun tree => (entry.1, tree)

theorem trees_cons (file : FileScope) (declared : List NamedTree) (rest : ScopedFiles) :
    trees ((file, declared) :: rest) = declared.map (fun tree => (file, tree)) ++ trees rest :=
  List.flatMap_cons

theorem fileDeclarations_eq (scope : Scope) (file : FileScope) (declared : List NamedTree) :
    fileDeclarations scope file declared = .each (declarationOf scope file) declared := by
  induction declared with
  | nil => rfl
  | cons tree rest ih => rw [fileDeclarations, ih, Reported.each_cons]

theorem declarations_eq (scope : Scope) (inFiles : ScopedFiles) :
    declarations scope inFiles =
      .each (fun entry => declarationOf scope entry.1 entry.2) (trees inFiles) := by
  induction inFiles with
  | nil => rfl
  | cons entry rest ih =>
    rw [declarations, ih, fileDeclarations_eq, trees_cons, Reported.each_append, Reported.each_map]

theorem fileMethods_eq (scope : Scope) (file : FileScope) (declared : List NamedTree) :
    fileMethods scope file declared = .each (methodOf scope file) declared := by
  induction declared with
  | nil => rfl
  | cons tree rest ih => rw [fileMethods, ih, Reported.each_cons]

theorem methods_eq (scope : Scope) (inFiles : ScopedFiles) :
    methods scope inFiles =
      .each (fun entry => methodOf scope entry.1 entry.2) (trees inFiles) := by
  induction inFiles with
  | nil => rfl
  | cons entry rest ih =>
    rw [methods, ih, fileMethods_eq, trees_cons, Reported.each_append, Reported.each_map]

/-! ## Types -/

/-- The type that a tree declares, under its name. -/
def localType? (entry : FileScope × NamedTree) : Option (String × LocalType) :=
  match entry.2.declaration with
  | .type tree isAlias => some (entry.2.name, { tree, isAlias, file := entry.1 })
  | _ => none

theorem name_localType? (entry : FileScope × NamedTree) :
    (localType? entry).map Prod.fst = entry.2.typeName? := by
  obtain ⟨file, name, line, what⟩ := entry
  cases what <;> rfl

/-- The types that are declared, with their names. -/
def typeEntries (inFiles : ScopedFiles) : List (String × LocalType) :=
  (trees inFiles).filterMap localType?

theorem names_typeEntries (inFiles : ScopedFiles) :
    (typeEntries inFiles).map Prod.fst =
      inFiles.flatMap fun entry => entry.2.filterMap NamedTree.typeName? := by
  simp only [typeEntries, trees, List.filterMap_flatMap, List.map_flatMap, List.filterMap_map,
    List.map_filterMap, Function.comp_def, name_localType?]

theorem localTypes_cons_type (file : FileScope) (line : Nat) (tree : TypeTree) (isAlias : Bool)
    (rest : List NamedTree) (types : Table LocalType) :
    (localTypes file (⟨name, line, .type tree isAlias⟩ :: rest) types).value =
        (localTypes file rest (types.insert name { tree, isAlias, file })).value ∧
      (localTypes file (⟨name, line, .type tree isAlias⟩ :: rest) types).complaints =
        (if types.contains name then [.redeclared name] else []) ++
          (localTypes file rest (types.insert name { tree, isAlias, file })).complaints := by
  rw [localTypes]
  split
  · exact ⟨rfl, rfl⟩
  · exact ⟨rfl, rfl⟩

theorem localTypes_cons_other (file : FileScope) {head : NamedTree} (other : head.typeName? = none)
    (rest : List NamedTree) (types : Table LocalType) :
    localTypes file (head :: rest) types = localTypes file rest types := by
  obtain ⟨called, line, what⟩ := head
  cases what with
  | type tree isAlias => cases other
  | _ => rfl

theorem value_localTypes (file : FileScope) (declared : List NamedTree) (types : Table LocalType) :
    (localTypes file declared types).value =
      (declared.filterMap fun tree => localType? (file, tree)).foldl
        (fun types entry => types.insert entry.1 entry.2) types := by
  induction declared generalizing types with
  | nil => rfl
  | cons head rest ih =>
    obtain ⟨name, line, what⟩ := head
    cases what with
    | type tree isAlias => rw [(localTypes_cons_type file line tree isAlias rest types).1, ih]; rfl
    | _ => exact ih types

/-- The table of the types is written in the order of the trees. -/
theorem value_packageTypes (inFiles : ScopedFiles) (types : Table LocalType) :
    (packageTypes inFiles types).value =
      (typeEntries inFiles).foldl (fun types entry => types.insert entry.1 entry.2) types := by
  induction inFiles generalizing types with
  | nil => rfl
  | cons entry rest ih =>
    obtain ⟨file, declared⟩ := entry
    show (packageTypes rest (localTypes file declared types).value).value = _
    rw [ih, value_localTypes, typeEntries, typeEntries, trees_cons, List.filterMap_append,
      List.foldl_append, List.filterMap_map]
    rfl

/-- A type of the package is declared in one of the files. -/
theorem mem_of_get?_packageTypes
    (there : (packageTypes inFiles ∅).value.get? name = some declared) :
    ∃ line,
      (declared.file, ⟨name, line, .type declared.tree declared.isAlias⟩) ∈ trees inFiles := by
  rw [value_packageTypes] at there
  obtain ⟨⟨file, called, line, what⟩, mem, found⟩ :=
    List.mem_filterMap.1 (Table.mem_of_get?_ofList there)
  cases what with
  | type tree isAlias =>
    cases found
    exact ⟨line, mem⟩
  | _ => cases found

/-- No two of the names are one, and none of them is taken. -/
def Fresh (types : Table LocalType) (names : List String) : Prop :=
  names.Nodup ∧ ∀ name ∈ names, types.get? name = none

theorem fresh_cons_iff (declared : LocalType) : Fresh types (name :: names) ↔
    types.contains name = false ∧ Fresh (types.insert name declared) names := by
  simp only [Fresh, List.nodup_cons, List.forall_mem_cons, Table.get?_insert, Table.contains,
    Option.isSome_eq_false_iff, Option.isNone_iff_eq_none]
  constructor
  · rintro ⟨⟨new, nodup⟩, free, others⟩
    refine ⟨free, nodup, fun other mem => ?_⟩
    rw [if_neg (ne_of_mem_of_not_mem mem new)]
    exact others other mem
  · rintro ⟨free, nodup, others⟩
    have apart : ∀ other ∈ names, other ≠ name ∧ types.get? other = none := by
      intro other mem
      have untaken := others other mem
      split at untaken
      · cases untaken
      · next ne => exact ⟨ne, untaken⟩
    exact ⟨⟨fun mem => (apart name mem).1 rfl, nodup⟩, free, fun other mem => (apart other mem).2⟩

/-- A file is not complained of, and leaves names new, exactly if its types are new before
them. -/
theorem silent_localTypes_iff {declared : List NamedTree} :
    (localTypes file declared types).complaints = [] ∧
        Fresh (localTypes file declared types).value names ↔
      Fresh types (declared.filterMap NamedTree.typeName? ++ names) := by
  induction declared generalizing types with
  | nil => exact ⟨And.right, fun fresh => ⟨rfl, fresh⟩⟩
  | cons head rest ih =>
    obtain other | ⟨called, line, tree, isAlias, rfl⟩ := head.type_or_other
    · rw [localTypes_cons_other file other, List.filterMap_cons, other]
      exact ih
    · obtain ⟨value, complaints⟩ := localTypes_cons_type file line tree isAlias rest types
      have free : (if types.contains called then [Complaint.redeclared called] else []) = [] ↔
          types.contains called = false := by
        cases types.contains called <;> simp
      rw [value, complaints, List.append_eq_nil_iff, and_assoc, ih, free]
      exact (fresh_cons_iff _).symm

theorem silent_packageTypes_iff : (packageTypes inFiles types).complaints = [] ↔
    Fresh types ((typeEntries inFiles).map Prod.fst) := by
  rw [names_typeEntries]
  induction inFiles generalizing types with
  | nil => exact ⟨fun _ => ⟨List.nodup_nil, List.forall_mem_nil _⟩, fun _ => rfl⟩
  | cons entry rest ih =>
    obtain ⟨file, declared⟩ := entry
    rw [packageTypes, Reported.complaints_bind, List.append_eq_nil_iff, ih, List.flatMap_cons]
    exact silent_localTypes_iff

/-- Where nothing is complained of, a name means the type that a file declares with it. -/
theorem get?_packageTypes_of_mem {line : Nat} {tree : TypeTree} {isAlias : Bool}
    (mem : (file, ⟨name, line, .type tree isAlias⟩) ∈ trees inFiles)
    (silent : (packageTypes inFiles types).complaints = []) :
    (packageTypes inFiles types).value.get? name = some { tree, isAlias, file } := by
  rw [value_packageTypes]
  exact Table.get?_foldl_of_mem (silent_packageTypes_iff.1 silent).1
    (List.mem_filterMap.2 ⟨_, mem, rfl⟩)

/-! ## Definitions -/

/-- The definition of a type, under its name. -/
def definitionOf (scope : Scope) (entry : String × LocalType) :
    Reported (Option (String × Definition)) := do
  return some (entry.1, { name := entry.1, underlying := ← underlying scope entry.1 entry.2 })

theorem definitions_eq (scope : Scope) (entries : List (String × LocalType)) :
    definitions scope entries =
      .each (definitionOf scope) (entries.filter fun entry => !entry.2.isAlias) := by
  induction entries with
  | nil => rfl
  | cons entry rest ih =>
    obtain ⟨name, declared⟩ := entry
    rw [definitions, ih]
    cases plain : declared.isAlias with
    | true => rw [if_pos rfl, List.filter_cons_of_neg (by simp [plain])]
    | false =>
      rw [if_neg Bool.false_ne_true, List.filter_cons_of_pos (by simp [plain]),
        Reported.each_cons, definitionOf]
      simp [bind, pure]

theorem value_definitions (scope : Scope) (entries : List (String × LocalType)) :
    (definitions scope entries).value = (entries.filter fun entry => !entry.2.isAlias).map
      fun entry => (entry.1, ⟨entry.1, (underlying scope entry.1 entry.2).value, []⟩) := by
  rw [definitions_eq]
  exact congrFun List.filterMap_eq_map _

/-- A type is defined if it is no alias, by what it is written as. -/
theorem mem_definitions_iff {entries : List (String × LocalType)} {definition : Definition} :
    (name, definition) ∈ (definitions scope entries).value ↔
      ∃ declared, (name, declared) ∈ entries ∧ declared.isAlias = false ∧
        definition = ⟨name, (underlying scope name declared).value, []⟩ := by
  rw [value_definitions, List.mem_map]
  constructor
  · rintro ⟨⟨called, declared⟩, mem, same⟩
    cases same
    exact ⟨declared, (List.mem_filter.1 mem).1, by simpa using (List.mem_filter.1 mem).2, rfl⟩
  · rintro ⟨declared, mem, plain, rfl⟩
    exact ⟨_, List.mem_filter.2 ⟨mem, by simp [plain]⟩, rfl⟩

/-! ## Packages -/

/-- The files with their scopes, each in its own. -/
def scopedFiles (imported? : String → Option Checked) (files : List (SourceFile SourceTree)) :
    ScopedFiles :=
  files.map fun file => ((fileScope imported? file).value, file.unit.declarations)

theorem mem_trees_iff {tree : NamedTree} : (file, tree) ∈ trees (scopedFiles imported? files) ↔
    ∃ source ∈ files, tree ∈ source.unit.declarations ∧
      (fileScope imported? source).value = file := by
  simp [trees, scopedFiles]

theorem value_fileScopes (package first : String) (files : List (SourceFile SourceTree)) :
    (fileScopes imported? package first files).value =
      files.map fun file => (fileScope imported? file).value := by
  induction files with
  | nil => rfl
  | cons file rest ih =>
    rw [fileScopes, List.map_cons, ← ih]
    split <;> rfl

/-- The scope of the files of a package. -/
def filesScope (package : String) (imported? : String → Option Checked)
    (files : List (SourceFile SourceTree)) : Scope where
  package
  imported?
  types := (packageTypes (scopedFiles imported? files) ∅).value
  files := files.map fun file => (fileScope imported? file).value

theorem scopeOf_eq (package first : String) (files : List (SourceFile SourceTree)) :
    scopeOf package first imported? files =
      { value := (filesScope package imported? files, scopedFiles imported? files)
        complaints := (fileScopes imported? package first files).complaints ++
          (packageTypes (scopedFiles imported? files) ∅).complaints } := by
  have zipped : (fileScopes imported? package first files).value.zip
      (files.map fun file => file.unit.declarations) = scopedFiles imported? files := by
    rw [value_fileScopes, List.zip_map']
    rfl
  rw [filesScope, ← value_fileScopes package first, ← zipped, scopeOf]
  simp only [bind, pure, List.append_nil]

/-- What is resolved of a package, and every complaint there can be. -/
theorem resolved_eq (package first : String) (files : List (SourceFile SourceTree)) :
    let scope := filesScope package imported? files
    let inFiles := scopedFiles imported? files
    resolved package first imported? files =
      { value :=
          { path := package
            name := first
            declarations := (declarations scope inFiles).value
            definitions := (Table.ofList (definitions scope scope.types.entries).value).map
              (withMethods (methods scope inFiles).value) }
        complaints := (fileScopes imported? package first files).complaints ++
          (packageTypes inFiles ∅).complaints ++ ((declarations scope inFiles).complaints ++
            ((definitions scope scope.types.entries).complaints ++
              (methods scope inFiles).complaints)) } := by
  intro scope inFiles
  rw [resolved, scopeOf_eq]
  simp only [bind, pure, List.append_nil]
  rfl

/-- What a package that is checked without complaints is made of. -/
structure Resolves (package : String) (files : List (SourceFile SourceTree))
    (imported? : String → Option Checked) (scope : Scope) (checked : Checked) : Prop where
  own : scope.package = package
  imported : scope.imported? = imported?
  types : scope.types = (packageTypes (scopedFiles imported? files) ∅).value
  path : checked.path = package
  declarations :
    checked.declarations = (Check.declarations scope (scopedFiles imported? files)).value
  definitions : checked.definitions =
    (Table.ofList (Check.definitions scope scope.types.entries).value).map
      (withMethods (methods scope (scopedFiles imported? files)).value)
  silentFiles : ∀ file ∈ files, (fileScope imported? file).complaints = []
  silentTypes : (packageTypes (scopedFiles imported? files) ∅).complaints = []
  silentDeclarations :
    (Check.declarations scope (scopedFiles imported? files)).complaints = []
  silentDefinitions : (Check.definitions scope scope.types.entries).complaints = []
  silentMethods : (methods scope (scopedFiles imported? files)).complaints = []

/-- A check succeeds exactly if the files name one package and nothing is complained of. -/
theorem package_eq_ok_iff : Check.package package files imported? = .ok checked ↔
    files ≠ [] ∧ (∀ file ∈ files, file.packageName = checked.name) ∧ checked.diagnostics = [] ∧
      Resolves package files imported? (filesScope package imported? files) checked := by
  cases files with
  | nil => exact ⟨fun ok => (by cases ok), fun ok => absurd rfl ok.1⟩
  | cons first rest =>
    rw [Check.package, resolved_eq]
    dsimp only
    constructor
    · intro ok
      split at ok
      · next silent =>
        cases ok
        simp only [List.isEmpty_iff, List.append_eq_nil_iff, fileScopes_eq_nil_iff] at silent
        obtain ⟨⟨named, types⟩, declarations, definitions, methods⟩ := silent
        exact ⟨List.cons_ne_nil _ _, fun file mem => (named file mem).1, rfl, rfl, rfl, rfl, rfl,
          rfl, rfl, fun file mem => (named file mem).2, types, declarations, definitions, methods⟩
      · split at ok <;> cases ok
    · rintro ⟨-, named, diagnostics, h⟩
      have name := named first List.mem_cons_self
      refine (if_pos ?_).trans ?_
      · simp only [List.isEmpty_iff, List.append_eq_nil_iff, fileScopes_eq_nil_iff]
        exact ⟨⟨fun file mem => ⟨(named file mem).trans name.symm, h.silentFiles file mem⟩,
          h.silentTypes⟩, h.silentDeclarations, h.silentDefinitions, h.silentMethods⟩
      · rw [← h.declarations, ← h.definitions, ← h.path, name, ← diagnostics]

theorem resolves_of_package (ok : Check.package package files imported? = .ok checked) :
    ∃ scope, Resolves package files imported? scope checked :=
  ⟨_, (package_eq_ok_iff.1 ok).2.2.2⟩

/-! ## Resolving in two ways -/

/-- With other files the scope finds the same packages by their paths. -/
def Scope.SameImports (scope : Scope) (list : List FileScope) : Prop :=
  ∀ path, importedByPath? { scope with files := list } path = importedByPath? scope path

/-- Two entries give related results for every declared type, in scopes that find the same
packages. The relation has to hold of equal results, and of what is made of related ones. -/
structure Matches (related : (α : Type) → Reported α → Reported α → Prop) (scope : Scope)
    (list : List FileScope) (entry entry' : Entry) : Prop where
  refl : ∀ {α : Type} (way : Reported α), related α way way
  bind : ∀ {α β : Type} {first second : Reported α} {next next' : α → Reported β},
    related α first second → (∀ a, related β (next a) (next' a)) →
      related β (first >>= next) (second >>= next')
  same : scope.SameImports list
  ofAlias : ∀ name found, scope.types.get? name = some found →
    related _ (entry.ofAlias found) (entry'.ofAlias found)
  ofInterface : ∀ name found elements, scope.types.get? name = some found →
    found.tree = .interface elements →
      related _ (entry.ofInterface (.named scope.package name) found.file elements)
        (entry'.ofInterface (.named scope.package name) found.file elements)

namespace Matches

variable {related : (α : Type) → Reported α → Reported α → Prop} {list : List FileScope}
  {entry entry' : Entry} (h : Matches related scope list entry entry')

include h

theorem resolveIdent (name : String) :
    related _ (resolveIdent scope entry file name)
      (resolveIdent { scope with files := list } entry' file name) := by
  unfold Check.resolveIdent
  dsimp only
  split
  · exact h.refl _
  · split
    · next found there =>
      split
      · exact h.ofAlias name found there
      · exact h.refl _
    · exact h.refl _

theorem embeddedMethods (type : TypeExpr) :
    related _ (embeddedMethods scope entry file type)
      (embeddedMethods { scope with files := list } entry' file type) := by
  cases type with
  | named package name =>
    simp only [Check.embeddedMethods, h.same package]
    split
    · exact h.refl _
    · split
      · split
        · next there => exact h.ofInterface name _ _ there rfl
        · exact h.refl _
      · exact h.refl _
  | _ => exact h.refl _

mutual

/-- What holds of the declared types holds of every written type. -/
theorem resolve : ∀ tree : TypeTree,
    related _ (resolve scope entry file tree)
      (resolve { scope with files := list } entry' file tree)
  | .ident name => h.resolveIdent name
  | .qualified _ _ => h.refl _
  | .pointer elem | .slice elem | .array _ elem | .chan _ elem =>
    h.bind (resolve elem) fun _ => h.refl _
  | .map key elem => h.bind (resolve key) fun _ => h.bind (resolve elem) fun _ => h.refl _
  | .func signature => h.bind (resolveSignature none signature) fun _ => h.refl _
  | .struct fields => h.bind (resolveFields fields) fun _ => h.refl _
  | .interface elements => h.bind (resolveElements none elements ∅) fun _ => h.refl _

theorem resolveAll : ∀ types : List TypeTree,
    related _ (resolveAll scope entry file types)
      (resolveAll { scope with files := list } entry' file types)
  | [] => h.refl _
  | first :: rest => h.bind (resolve first) fun _ => h.bind (resolveAll rest) fun _ => h.refl _

theorem resolveSignature (receiver : Option TypeExpr) : ∀ signature : SignatureTree,
    related _ (resolveSignature scope entry file receiver signature)
      (resolveSignature { scope with files := list } entry' file receiver signature)
  | ⟨params, results, _⟩ =>
    h.bind (resolveAll params) fun _ => h.bind (resolveAll results) fun _ => h.refl _

theorem resolveFields : ∀ fields : List FieldTree,
    related _ (resolveFields scope entry file fields)
      (resolveFields { scope with files := list } entry' file fields)
  | [] => h.refl _
  | ⟨_, _, _, type, _⟩ :: rest =>
    h.bind (resolve type) fun _ => h.bind (resolveFields rest) fun _ => h.refl _

theorem resolveElements (owner : Option TypeExpr) :
    ∀ (elements : List ElementTree) (set : Table MethodExpr),
    related _ (resolveElements scope entry file owner elements set)
      (resolveElements { scope with files := list } entry' file owner elements set)
  | [], _ => h.refl _
  | .method _ signature _ :: rest, _ =>
    h.bind (resolveSignature owner signature) fun _ => resolveElements owner rest _
  | .embedded type :: rest, _ => h.bind (resolve type) fun _ =>
      h.bind (h.embeddedMethods _) fun _ => resolveElements owner rest _

end

end Matches

end Check

end GoAtlas
