import Mathlib.Data.List.Find
import Mathlib.Data.List.Nodup
import GoAtlas.Proofs.Check.Closed

/-!
# The order of the files

The files of a package are checked together, so it should not matter which of them is read
first. Each pass of a check looks at one tree after the other, in the scope of its own file,
so files in another order give the same in another order.

The trees have more than that in common. The types of the package make one table, which is
the same in every order if no name is declared twice. An embedded interface of another
package is found by the path of the package, in the first file that imports it, so packages
with one path have to be one (`Coherent`). And methods of one name stay in the order they
are met, so no type may have two of one name (`methodKeys`).

With that a check succeeds in every order of the files or in none, and reports the same up
to the order of the declarations (`package_of_perm`).
-/

namespace GoAtlas.Check

variable {imported? : String → Option Checked} {package name : String} {scope : Scope}
  {files others : List (SourceFile SourceTree)} {checked : Checked} {list : List FileScope}
  {inFiles : ScopedFiles}
variable {types : Table LocalType} {names : List String}

/-! ## Scopes that differ in their files -/

section

variable (same : scope.SameImports list)

include same

theorem matches_files (entry : Entry) : Matches (@Eq <| Reported ·) scope list entry entry where
  refl _ := rfl
  bind first next := by rw [first, funext next]
  same := same
  ofAlias _ _ _ := rfl
  ofInterface _ _ _ _ _ := rfl

/-- A written type means the same wherever the same packages are found. -/
theorem resolve_files (entry : Entry) (file : FileScope) (tree : TypeTree) :
    resolve { scope with files := list } entry file tree = resolve scope entry file tree :=
  ((matches_files same entry).resolve tree).symm

theorem resolveSignature_files (entry : Entry) (file : FileScope) (receiver : Option TypeExpr)
    (signature : SignatureTree) :
    resolveSignature { scope with files := list } entry file receiver signature =
      resolveSignature scope entry file receiver signature :=
  ((matches_files same entry).resolveSignature receiver signature).symm

theorem resolveElements_files (entry : Entry) (file : FileScope) (owner : Option TypeExpr)
    (elements : List ElementTree) (set : Table MethodExpr) :
    resolveElements { scope with files := list } entry file owner elements set =
      resolveElements scope entry file owner elements set :=
  ((matches_files same entry).resolveElements owner elements set).symm

theorem entryAt_files (depth : Nat) :
    entryAt { scope with files := list } depth = entryAt scope depth := by
  induction depth with
  | zero => rfl
  | succ depth ih =>
    rw [entryAt, entryAt, ih]
    simp only [resolve_files same, resolveElements_files same]

theorem entry_files : Scope.entry { scope with files := list } = scope.entry :=
  entryAt_files same _

theorem declarationOf_files (file : FileScope) (tree : NamedTree) :
    declarationOf { scope with files := list } file tree = declarationOf scope file tree := by
  unfold declarationOf
  simp only [entry_files same, resolve_files same, resolveSignature_files same]

theorem methodOf_files (file : FileScope) (tree : NamedTree) :
    methodOf { scope with files := list } file tree = methodOf scope file tree := by
  unfold methodOf
  simp only [entry_files same, resolve_files same, resolveSignature_files same]

theorem definitions_files (entries : List (String × LocalType)) :
    definitions { scope with files := list } entries = definitions scope entries := by
  induction entries with
  | nil => rfl
  | cons entry rest ih =>
    obtain ⟨name, declared⟩ := entry
    rw [definitions, definitions, ih]
    unfold underlying
    simp only [entry_files same, resolve_files same, resolveElements_files same]

end

/-! ## Passes over the trees -/

theorem Reported.silent_each_of_perm {α β : Type} {f : α → Reported (Option β)}
    {members others : List α} (perm : members.Perm others)
    (silent : (each f members).complaints = []) : (each f others).complaints = [] := by
  have complaints := perm.flatMap_right fun member => (f member).complaints
  exact List.Perm.eq_nil (complaints.symm.trans (.of_eq silent))

theorem declarations_files (same : scope.SameImports list) (inFiles : ScopedFiles) :
    declarations { scope with files := list } inFiles = declarations scope inFiles := by
  simp only [declarations_eq, declarationOf_files same]

theorem methods_files (same : scope.SameImports list) (inFiles : ScopedFiles) :
    methods { scope with files := list } inFiles = methods scope inFiles := by
  simp only [methods_eq, methodOf_files same]

/-! ## Types -/

/-- Files that are not complained of declare the same types in every order. -/
theorem packageTypes_of_perm {others : ScopedFiles} (perm : inFiles.Perm others)
    (silent : (packageTypes inFiles ∅).complaints = []) :
    (packageTypes others ∅).complaints = [] ∧
      (packageTypes others ∅).value = (packageTypes inFiles ∅).value := by
  have fresh := silent_packageTypes_iff.1 silent
  have perm' : (typeEntries inFiles).Perm (typeEntries others) :=
    (perm.flatMap_right _).filterMap localType?
  constructor
  · exact silent_packageTypes_iff.2 ⟨(perm'.map _).nodup_iff.1 fresh.1, fun name _ => rfl⟩
  · rw [value_packageTypes, value_packageTypes]
    exact (Table.ofList_perm perm' fresh.1).symm

/-! ## Imports -/

/-- Imported packages with one path are one. -/
def Coherent (imported? : String → Option Checked) : Prop :=
  ∀ literal other checked found, imported? literal = some checked → imported? other = some found →
    checked.path = found.path → checked = found

theorem sameImports_of_perm (coherent : Coherent scope.imported?)
    (perm : scope.files.Perm list) : scope.SameImports list := by
  intro path
  refine (List.find?_eq_find?_of_perm (perm.flatMap_right _) ?_).symm
  rintro a ⟨ha, pa⟩ b ⟨hb, pb⟩
  have given : ∀ checked ∈ scope.files.flatMap fun file =>
      file.imports.values.filterMap scope.imported?, ∃ literal,
        scope.imported? literal = some checked := by
    intro checked mem
    obtain ⟨file, -, mem⟩ := List.mem_flatMap.1 mem
    obtain ⟨literal, -, leads⟩ := List.mem_filterMap.1 mem
    exact ⟨literal, leads⟩
  obtain ⟨literal, leads⟩ := given a ha
  obtain ⟨other, leads'⟩ := given b hb
  exact coherent literal other a b leads leads' ((eq_of_beq pa).trans (eq_of_beq pb).symm)

/-! ## Methods -/

/-- The type and the name of a method. -/
def methodKey? (tree : NamedTree) : Option (String × String) :=
  match tree.declaration with
  | .func (some receiver) _ => (receiverName? receiver).map fun type => (type, tree.name)
  | _ => none

/-- The types and the names of all methods. -/
def methodKeys (files : List (SourceFile SourceTree)) : List (String × String) :=
  files.flatMap fun file => file.unit.declarations.filterMap methodKey?

theorem methodKeys_eq (imported? : String → Option Checked)
    (files : List (SourceFile SourceTree)) :
    methodKeys files =
      (trees (scopedFiles imported? files)).filterMap fun entry => methodKey? entry.2 := by
  simp only [methodKeys, trees, scopedFiles, List.flatMap_map, List.filterMap_flatMap,
    List.filterMap_map, Function.comp_def]

theorem methodKey?_of_methodOf {file : FileScope} {tree : NamedTree} {method : String × MethodExpr}
    (value : (methodOf scope file tree).value = some method) :
    methodKey? tree = some (method.1, method.2.name) := by
  obtain ⟨called, line, what⟩ := tree
  cases what with
  | func receiver signature =>
    cases receiver with
    | none => cases value
    | some receiver =>
      simp only [methodOf] at value
      split at value
      · cases value
      · next type found =>
        cases value
        show (receiverName? receiver).map _ = _
        rw [(Option.filter_eq_some_iff.1 found).1]
        rfl
  | _ => cases value

/-- Methods of one type have different names. -/
theorem nodup_methods (apart : (methodKeys files).Nodup) :
    ((methods scope (scopedFiles imported? files)).value.map fun method =>
      (method.1, method.2.name)).Nodup := by
  rw [methodKeys_eq imported?, List.Nodup, List.pairwise_filterMap] at apart
  rw [methods_eq, List.Nodup, List.pairwise_map, Reported.each, List.pairwise_filterMap]
  refine apart.imp fun different method value method' value' => ?_
  exact different _ (methodKey?_of_methodOf value) _ (methodKey?_of_methodOf value')

theorem withMethods_of_perm {methods others : List (String × MethodExpr)}
    (perm : methods.Perm others)
    (nodup : (methods.map fun method => (method.1, method.2.name)).Nodup)
    (definition : Definition) : withMethods others definition = withMethods methods definition := by
  have own := (perm.filter fun method => method.1 == definition.name).map Prod.snd
  have sorted (methods : List MethodExpr) :
      (methods.mergeSort fun a b => decide (a.name ≤ b.name)).Pairwise fun a b =>
        decide (a.name ≤ b.name) = true :=
    List.pairwise_mergeSort (Table.byName_trans MethodExpr.name)
      (Table.byName_total MethodExpr.name) methods
  have member : ∀ method ∈ ((methods.filter fun method => method.1 == definition.name).map
      Prod.snd), (definition.name, method) ∈ methods := by
    intro method mem
    obtain ⟨entry, inside, rfl⟩ := List.mem_map.1 mem
    obtain ⟨inside, named⟩ := List.mem_filter.1 inside
    rw [← eq_of_beq named]
    exact inside
  refine congrArg (fun methods => { definition with methods }) (List.Perm.eq_of_pairwise ?_
    (sorted _) (sorted _) (((List.mergeSort_perm _ _).trans own.symm).trans
      (List.mergeSort_perm _ _).symm))
  intro a b ha hb above below
  have ha := member a (own.mem_iff.2 (List.mem_mergeSort.1 ha))
  have hb := member b (List.mem_mergeSort.1 hb)
  have name := String.le_antisymm (of_decide_eq_true above) (of_decide_eq_true below)
  have same := List.inj_on_of_nodup_map nodup ha hb (by rw [name])
  exact congrArg Prod.snd same

/-! ## Packages -/

/-- In another order of the files the scope has other files, and means the same. -/
theorem filesScope_of_perm (coherent : Coherent imported?) (perm : files.Perm others)
    (silent : (packageTypes (scopedFiles imported? files) ∅).complaints = []) :
    ∃ list, (filesScope package imported? files).SameImports list ∧
      filesScope package imported? others =
        { filesScope package imported? files with files := list } := by
  have types : (packageTypes (scopedFiles imported? others) ∅).value =
      (packageTypes (scopedFiles imported? files) ∅).value :=
    (packageTypes_of_perm (perm.map _) silent).2
  refine ⟨others.map fun file => (fileScope imported? file).value,
    sameImports_of_perm coherent (perm.map _), ?_⟩
  rw [filesScope, types]
  rfl

/-- What is resolved in one order of the files is resolved in another, up to the order of
the declarations. -/
theorem resolves_of_perm (coherent : Coherent imported?) (apart : (methodKeys files).Nodup)
    (perm : files.Perm others)
    (h : Resolves package files imported? (filesScope package imported? files) checked) :
    ∃ declarations, declarations.Perm checked.declarations ∧
      Resolves package others imported? (filesScope package imported? others)
        { checked with declarations } := by
  have trees : (trees (scopedFiles imported? files)).Perm (trees (scopedFiles imported? others)) :=
    (perm.map _).flatMap_right _
  obtain ⟨list, same, scope⟩ := @filesScope_of_perm _ package _ _ coherent perm h.silentTypes
  have silent := h.silentDeclarations
  have silent' := h.silentMethods
  rw [declarations_eq] at silent
  rw [methods_eq] at silent'
  refine ⟨(declarations (filesScope package imported? files) (scopedFiles imported? others)).value,
    ?_, rfl, rfl, rfl, h.path, ?_, ?_, fun file mem => h.silentFiles file (perm.mem_iff.2 mem),
    (packageTypes_of_perm (perm.map _) h.silentTypes).1, ?_, ?_, ?_⟩
  · rw [h.declarations, declarations_eq, declarations_eq]
    exact trees.symm.filterMap _
  · rw [scope, declarations_files same]
  · rw [scope, definitions_files same, methods_files same]
    refine h.definitions.trans (congrArg (Table.map · _) (funext fun definition => ?_))
    refine (withMethods_of_perm ?_ (nodup_methods apart) definition).symm
    rw [methods_eq, methods_eq]
    exact trees.filterMap _
  · rw [scope, declarations_files same, declarations_eq]
    exact Reported.silent_each_of_perm trees silent
  · rw [scope, definitions_files same]
    exact h.silentDefinitions
  · rw [scope, methods_files same, methods_eq]
    exact Reported.silent_each_of_perm trees silent'

theorem package_ok_of_perm (coherent : Coherent imported?) (apart : (methodKeys files).Nodup)
    (perm : files.Perm others) (ok : Check.package package files imported? = .ok checked) :
    ∃ declarations, declarations.Perm checked.declarations ∧
      Check.package package others imported? = .ok { checked with declarations } := by
  obtain ⟨ne, named, diagnostics, resolves⟩ := package_eq_ok_iff.1 ok
  obtain ⟨declarations, listed, resolves⟩ := resolves_of_perm coherent apart perm resolves
  refine ⟨declarations, listed, package_eq_ok_iff.2 ⟨?_, ?_, diagnostics, resolves⟩⟩
  · exact fun empty => ne (perm.trans (.of_eq empty)).eq_nil
  · exact fun file mem => named file (perm.mem_iff.2 mem)

/-- Where imported packages are told apart by their paths and no type has two methods of one
name, files can be checked in any order: if the check succeeds in one it succeeds in the
other, and reports the same package with the declarations in another order. -/
theorem package_of_perm (coherent : Coherent imported?) (apart : (methodKeys files).Nodup)
    (perm : files.Perm others) :
    ((∃ checked, Check.package package files imported? = .ok checked) ↔
      ∃ checked, Check.package package others imported? = .ok checked) ∧
    ∀ checked found, Check.package package files imported? = .ok checked →
      Check.package package others imported? = .ok found →
      found.path = checked.path ∧ found.name = checked.name ∧
        found.definitions = checked.definitions ∧ found.diagnostics = checked.diagnostics ∧
        found.declarations.Perm checked.declarations := by
  have apart' : (methodKeys others).Nodup := (perm.flatMap_right _).nodup_iff.1 apart
  refine ⟨⟨?_, ?_⟩, fun checked found ok ok' => ?_⟩
  · rintro ⟨checked, ok⟩
    obtain ⟨declarations, -, ok⟩ := package_ok_of_perm coherent apart perm ok
    exact ⟨_, ok⟩
  · rintro ⟨checked, ok⟩
    obtain ⟨declarations, -, ok⟩ := package_ok_of_perm coherent apart' perm.symm ok
    exact ⟨_, ok⟩
  · obtain ⟨declarations, listed, again⟩ := package_ok_of_perm coherent apart perm ok
    cases again.symm.trans ok'
    exact ⟨rfl, rfl, rfl, rfl, listed⟩

/-- A second file of the package, with an alias and an interface of the first. -/
def moreText : String :=
  "package app\n\nimport base \"lib\"\n\ntype Bags = []Bag\n\n"
    ++ "type Wide interface \x7b\n\tBoth\n\tAll() Bags\n\x7d\n\n"
    ++ "func (b Bag) Len(other base.Base) int \x7b\n\x7d\n"

def twoFiles : List (SourceFile SourceTree) :=
  sampleFiles "app" appText ++ sampleFiles "more" moreText

/-- The two files refer to each other and give the import different names. -/
theorem package_of_perm_twoFiles : twoFiles.length = 2 ∧ Coherent appImports ∧
    (methodKeys twoFiles).Nodup ∧ ∃ checked found,
      Check.package "app" twoFiles appImports = .ok checked ∧
      Check.package "app" twoFiles.reverse appImports = .ok found ∧
      found.definitions = checked.definitions ∧
      found.declarations.Perm checked.declarations := by
  have coherent : Coherent appImports := by
    intro literal other checked found leads leads' _
    rw [appImports] at leads leads'
    split at leads
    · split at leads'
      · exact (Option.some.inj leads).symm.trans (Option.some.inj leads')
      · cases leads'
    · cases leads
  have silent : twoFiles.length = 2 ∧ (methodKeys twoFiles).Nodup ∧
      Silent "app" "app" twoFiles appImports := by decide +kernel
  obtain ⟨length, apart, silent⟩ := silent
  have reversed := @package_of_perm _ "app" _ _ coherent apart (List.reverse_perm twoFiles).symm
  have ok := package_of_silent silent
  obtain ⟨found, ok'⟩ := reversed.1.1 ⟨_, ok⟩
  obtain ⟨-, -, definitions, -, declarations⟩ := reversed.2 _ found ok ok'
  exact ⟨length, coherent, apart, _, found, ok, ok', definitions, declarations⟩

end GoAtlas.Check
