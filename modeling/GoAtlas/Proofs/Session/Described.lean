import GoAtlas.Proofs.Check.Declared
import GoAtlas.Proofs.Session.Ranked
import GoAtlas.Proofs.Session.Survey

/-!
# The packages an atlas describes

The packages that were asked for are surveyed one after the other, and each leaves the
records of the others alone but for their types. So in the end the record of each says
what its check says (`surveyed_foldl`), and a package that was not asked for is still the
mere mention that the types of the others made of it (`passes_foldl`).

What the check says is what the front end answered for files of the package (`Grounded`),
over whatever was asked of the session before and however the tree changed meanwhile.
-/

namespace GoAtlas

variable {U : Type}

theorem SourceIndex.filesOf_prefix_insert (index : SourceIndex U) (package : String)
    (file : SourceFile U) (other : String) :
    index.filesOf other <+: (index.insert package file).filesOf other := by
  cases fresh : index.containsFile package file.path with
  | true =>
    rw [SourceIndex.insert, fresh]
    exact List.prefix_rfl
  | false =>
    rw [filesOf_insert fresh]
    split
    · next same =>
      rw [same]
      exact List.prefix_append _ _
    · exact List.prefix_rfl

namespace Session

variable {env : Environment U} {session : Session U} {package : String} {checked : Checked}
  {atlas : Atlas}

/-! ## Where results come from -/

/-- The results of a session are answers of the front end. -/
structure Grounded (frontend : Frontend U) (session : Session U) : Prop where
  indexed : session.sources.Indexed
  /-- A package was checked from the files that it had by then. -/
  answered : ∀ package checked, session.checks.get? package = some (.done checked) →
    ∃ files imports imported?, files <+: session.sources.filesOf package ∧
      .check package (files.map fun file => file.path) imports ∈ session.calls ∧
      frontend.check package files imported? = .ok checked

theorem grounded_start (frontend : Frontend U) (config : Config) :
    Grounded frontend (start config) where
  indexed := SourceIndex.indexed_empty
  answered _ _ there := nomatch there

theorem Grounded.record {frontend : Frontend U} (h : Grounded frontend session) (call : Call) :
    Grounded frontend (session.record call) where
  indexed := h.indexed
  answered package checked done := by
    obtain ⟨files, imports, imported?, before, call, ok⟩ := h.answered package checked done
    exact ⟨files, imports, imported?, before, List.mem_append_left _ call, ok⟩

theorem lasting_grounded (env : Environment U) : Lasting env (Grounded env.frontend) where
  remember _ _ _ h _ := ⟨h.indexed, h.answered⟩
  settle _ _ _ h _ := ⟨h.indexed, h.answered⟩
  record _ _ h := h.record _
  addFile session package file h _ := by
    refine ⟨h.indexed.insert package file, fun other checked done => ?_⟩
    obtain ⟨files, imports, imported?, before, call, ok⟩ := h.answered other checked done
    have more := session.sources.filesOf_prefix_insert package file other
    exact ⟨files, imports, imported?, before.trans more, call, ok⟩
  undecided session package state h undecided := by
    refine ⟨h.indexed, fun other checked done => ?_⟩
    rw [setCheck, Table.get?_insert] at done
    split at done
    · cases Option.some.inj done
      cases undecided
    · exact h.answered other checked done
  conclude session package found imports h := by
    refine ⟨h.indexed, fun other checked done => ?_⟩
    rw [setCheck, Table.get?_insert] at done
    split at done
    · next same =>
      rw [same]
      exact ⟨_, imports, session.imported? found, List.prefix_rfl,
        List.mem_append_right _ List.mem_cons_self,
        CheckState.eq_ok_of_ofAnswer (Option.some.inj done)⟩
    · exact (h.record _).answered other checked done
  request _ _ h := ⟨h.indexed, h.answered⟩
  addTags _ _ h := ⟨h.indexed, h.answered⟩

/-- The session after requests, each over the tree as it is by then. -/
def serveOver (frontend : Frontend U) (locator : Locator) (session : Session U)
    (asked : List (FileTree × Request)) : Session U :=
  asked.foldl (fun session (tree, request) => request.run { frontend, locator, tree } session)
    session

/-- What outlasts a request over each of the trees outlasts them all. -/
theorem keeps_serveOver {frontend : Frontend U} {locator : Locator} {kept : Session U → Prop}
    {asked : List (FileTree × Request)}
    (outlasts : ∀ step ∈ asked, Outlasts { frontend, locator, tree := step.1 } kept)
    (h : kept session) : kept (session.serveOver frontend locator asked) := by
  induction asked generalizing session with
  | nil => exact h
  | cons step rest ih =>
    refine ih (fun other mem => outlasts other (List.mem_cons_of_mem step mem)) ?_
    exact (outlasts step List.mem_cons_self).run step.2 h

/-- What is accounted for and grounded stays so, whatever is asked over whatever tree. -/
theorem grounded_serveOver {frontend : Frontend U} (accounted : session.Accounted)
    (grounded : Grounded frontend session) (locator : Locator)
    (asked : List (FileTree × Request)) :
    (session.serveOver frontend locator asked).Accounted ∧
      Grounded frontend (session.serveOver frontend locator asked) := by
  induction asked generalizing session with
  | nil => exact ⟨accounted, grounded⟩
  | cons first rest ih =>
    obtain ⟨tree, request⟩ := first
    apply ih
    · exact (proceeds_serve (.refl accounted) [request]).accounted
    · exact (lasting_grounded { frontend, locator, tree }).run request grounded

/-! ## Surveys one after the other -/

/-- The atlas with one more package that was checked. -/
def surveyOne (env : Environment U) (session : Session U) (atlas : Atlas) (package : String) :
    Atlas :=
  match session.checked? package with
  | some checked => session.surveyPackage env atlas package checked
  | none => atlas

/-- The packages that were asked for, in path order. -/
def requestedPackages (session : Session U) : List String :=
  session.sources.packages.filter session.requested.contains

theorem nodup_requestedPackages (session : Session U) : session.requestedPackages.Nodup := by
  have increasing := (Table.keys_increasing session.sources.files).imp Table.ne_of_key_lt
  exact increasing.filter _

namespace Accounted

theorem checked?_of_requested (h : session.Accounted)
    (requested : session.requested.contains package = true) :
    ∃ checked, session.checks.get? package = some (.done checked) ∧
      session.checked? package = some checked := by
  obtain ⟨checked, done⟩ := h.requested package requested
  refine ⟨checked, done, ?_⟩
  rw [checked?, done]
  rfl

theorem mem_requestedPackages (h : session.Accounted) :
    package ∈ session.requestedPackages ↔ session.requested.contains package = true := by
  rw [requestedPackages, List.mem_filter]
  constructor
  · exact And.right
  · intro requested
    obtain ⟨checked, done⟩ := h.requested package requested
    have has := (Table.contains_iff _ _).1 (h.files package _ done)
    exact ⟨(Table.mem_keys_iff _ _).2 has, requested⟩

theorem surveyAll_eq (h : session.Accounted) (packages : List String) (atlas : Atlas) :
    session.surveyAll env packages atlas =
      .ok ((packages.filter session.requested.contains).foldl (session.surveyOne env) atlas) := by
  induction packages generalizing atlas with
  | nil => rfl
  | cons package rest ih =>
    rw [Session.surveyAll]
    split
    · next requested =>
      obtain ⟨checked, -, known⟩ := h.checked?_of_requested requested
      rw [List.filter_cons_of_pos requested, List.foldl_cons, surveyOne, known]
      exact ih _
    · next other =>
      rw [List.filter_cons_of_neg other]
      exact ih atlas

/-- The atlas is made by the surveys of the packages that were asked for. -/
theorem atlas_eq (h : session.Accounted) :
    session.atlas env = .ok (session.requestedPackages.foldl (session.surveyOne env) {}) :=
  h.surveyAll_eq session.sources.packages {}

end Accounted

section Surveys

variable (env : Environment U) (session : Session U)

/-- What outlasts each step of a survey outlasts the surveys of packages. -/
theorem foldl_surveyOne {kept : Atlas → Prop} (h : kept atlas) {packages : List String}
    (headed : ∀ atlas package checked, kept atlas →
      kept (atlas.updatePackage package (session.headed package checked)))
    (surveyed : ∀ package ∈ packages, ∀ checked, session.checked? package = some checked →
      ∀ declaration ∈ checked.declarations, ∀ walk : Walk, kept walk.atlas →
        kept (survey (session.lookup env) package walk declaration).atlas)
    (imports : ∀ atlas package paths, kept atlas → kept (atlas.addImports package paths)) :
    kept (packages.foldl (session.surveyOne env) atlas) := by
  refine List.foldlRecOn packages _ h fun between h package mem => ?_
  unfold surveyOne
  cases known : session.checked? package with
  | none => exact h
  | some checked =>
    refine imports _ package _ (List.foldlRecOn (motive := fun walk : Walk => kept walk.atlas)
      checked.sorted _ (headed between package checked h) fun walk h declaration among => ?_)
    have listed := (checked.mem_sorted declaration).1 among
    exact surveyed package mem checked known declaration listed walk h

/-- A survey passes over the other packages, and describes its own. -/
theorem surveys_surveyOne (unknown : atlas.Unsurveyed package) :
    Atlas.Surveys package atlas (session.surveyOne env atlas package) ∧
      ∀ checked, session.checked? package = some checked →
        Surveyed session package checked (session.surveyOne env atlas package) := by
  unfold surveyOne
  cases known : session.checked? package with
  | none => exact ⟨.refl package atlas, nofun⟩
  | some found =>
    obtain ⟨surveys, surveyed⟩ := surveyed_surveyPackage found unknown
    refine ⟨surveys, fun checked same => ?_⟩
    cases same
    exact surveyed

/-- Surveys pass over every package that is not among theirs. -/
theorem passes_foldl {packages : List String} (nodup : packages.Nodup)
    (unknown : ∀ package ∈ packages, atlas.Unsurveyed package) {path : String}
    (other : path ∉ packages) :
    Atlas.Passes path atlas (packages.foldl (session.surveyOne env) atlas) := by
  induction packages generalizing atlas with
  | nil => exact .refl path atlas
  | cons first rest ih =>
    obtain ⟨new, nodup⟩ := List.nodup_cons.1 nodup
    have surveys := (surveys_surveyOne env session (unknown first List.mem_cons_self)).1
    have rests : ∀ package ∈ rest, (session.surveyOne env atlas first).Unsurveyed package := by
      intro package mem
      have apart : package ≠ first := fun same => new (same ▸ mem)
      exact (surveys.others package apart).trans (unknown package (List.mem_cons_of_mem _ mem))
    have apart := List.ne_of_not_mem_cons other
    exact (surveys.passes apart).trans (ih nodup rests (List.not_mem_of_not_mem_cons other))

/-- Packages whose turn is still to come are unknown. -/
theorem unsurveyed_foldl {before after : List String} (nodup : (before ++ after).Nodup)
    (unknown : ∀ package ∈ before ++ after, atlas.Unsurveyed package) (mem : package ∈ after) :
    (before.foldl (session.surveyOne env) atlas).Unsurveyed package := by
  obtain ⟨nodup, -, apart⟩ := List.nodup_append.1 nodup
  have before_unknown : ∀ package ∈ before, atlas.Unsurveyed package := by
    intro package mem
    exact unknown package (List.mem_append_left _ mem)
  have passes := passes_foldl env session nodup before_unknown
    fun earlier => apart package earlier package mem rfl
  exact passes.untyped.trans (unknown package (List.mem_append_right _ mem))

/-- Surveys describe every package that is among theirs. -/
theorem surveyed_foldl {packages : List String} (nodup : packages.Nodup)
    (unknown : ∀ package ∈ packages, atlas.Unsurveyed package) (mem : package ∈ packages)
    (known : session.checked? package = some checked) :
    Surveyed session package checked (packages.foldl (session.surveyOne env) atlas) := by
  -- before its turn the package is unknown, and after it the package is passed over
  obtain ⟨before, after, rfl⟩ := List.append_of_mem mem
  have waiting : ∀ path ∈ package :: after,
      (before.foldl (session.surveyOne env) atlas).Unsurveyed path :=
    fun path mem => unsurveyed_foldl env session nodup unknown mem
  rw [List.foldl_append, List.foldl_cons]
  obtain ⟨surveys, surveyed⟩ := surveys_surveyOne env session
    (waiting package List.mem_cons_self)
  obtain ⟨new, nodup⟩ := List.nodup_cons.1 (List.nodup_append.1 nodup).2.1
  refine (surveyed checked known).later (passes_foldl env session nodup ?_ new)
  intro path mem
  have apart : path ≠ package := fun same => new (same ▸ mem)
  exact (surveys.others path apart).trans (waiting path (List.mem_cons_of_mem _ mem))

end Surveys

/-- The record of a package that was not surveyed has types only. -/
theorem record_of_unsurveyed (unknown : atlas.Unsurveyed package) {record : Package}
    (recorded : atlas.packages.get? package = some record) :
    record = { Package.marker package with types := record.types } := by
  have untyped : record.untyped = (Package.marker package).untyped := by
    rw [← Atlas.package_of_get? recorded]
    exact unknown
  show { record.untyped with types := record.types } = _
  rw [untyped]
  rfl

/-- What the tables of a surveyed package hold, read off its record. -/
theorem Surveyed.record (h : Surveyed session package checked atlas) {record : Package}
    (recorded : atlas.packages.get? package = some record) (sort : DeclarationSort)
    (name : String) :
    ((record.declarations sort).contains name = true ↔
      ∃ declaration ∈ checked.declarations, declaration.name = name ∧
        (declaration.typeAs? sort).isSome = true) ∧
    ∀ id, (record.declarations sort).get? name = some id →
      ∃ node type target, atlas.node? id = some node ∧ node.kind = .declaration (some target) ∧
        firstDeclared? checked.declarations sort name = some type ∧
        atlas.findType? type.canonicalName = some target := by
  have leads : (record.declarations sort).get? name =
      atlas.target? (Atlas.declarationSlot package sort name) := by
    rw [← Atlas.get?_shelf_package]
    show _ = ((atlas.package package).declarations sort).get? name
    rw [Atlas.package_of_get? recorded]
  have declares := h.declares sort name
  rw [← firstDeclared?_isSome, Table.contains, leads]
  cases first : firstDeclared? checked.declarations sort name with
  | none =>
    rw [first] at declares
    have free : atlas.target? (Atlas.declarationSlot package sort name) = none := declares
    rw [free]
    refine ⟨Iff.rfl, fun id there => ?_⟩
    cases there
  | some type =>
    rw [first] at declares
    obtain ⟨id, node, target, there, hn, kind, found⟩ := declares
    rw [there]
    refine ⟨Iff.rfl, fun other same => ?_⟩
    cases same
    exact ⟨node, type, target, hn, kind, rfl, found⟩

/-- The record of a surveyed package has the types that the package declares itself. -/
theorem Surveyed.record_types (h : Surveyed session package checked atlas) {record : Package}
    (recorded : atlas.packages.get? package = some record) {declaration : Declaration}
    (mem : declaration ∈ checked.declarations)
    (declared : declaration.declared = .type (.named package declaration.name)) :
    record.types.contains declaration.name = true := by
  obtain ⟨id, found⟩ := h.types declaration mem _ declared
  rw [Atlas.findType?, TypeExpr.canonicalName, recorded] at found
  exact (Table.contains_iff _ _).2 ⟨id, found⟩

/-- The record of a surveyed package has the imports of its files. -/
theorem Surveyed.record_imports (h : Surveyed session package checked atlas)
    (indexed : session.sources.Indexed) {record : Package}
    (recorded : atlas.packages.get? package = some record) (path : String) :
    record.imports.contains path = true ↔
      ∃ file ∈ session.sources.filesOf package, ∃ literal ∈ file.imports,
        ImportPath.canonical literal = path := by
  have literals := h.imports path
  rw [Atlas.package_of_get? recorded, NameSet.toList, Table.mem_keys_iff, ← Table.contains_iff]
    at literals
  rw [literals]
  simp only [indexed package]
  constructor
  · rintro ⟨literal, ⟨file, mem, written⟩, canonical⟩
    exact ⟨file, mem, literal, written, canonical⟩
  · rintro ⟨file, mem, literal, written, canonical⟩
    exact ⟨literal, ⟨file, mem, written⟩, canonical⟩

/-- Whatever was asked of a session before, and however the tree changed meanwhile, the
atlas can be made. The record of a package that was asked for has the name of the check,
under each name the first declaration of each sort and nothing else, every type that the
package declares itself, and the imports of its files. The record of any other package
has types only. -/
theorem atlas_describes_requested (locator : Locator) (config : Config)
    (asked : List (FileTree × Request)) (tree : FileTree) :
    let session := (start config).serveOver Source.frontend locator asked
    ∃ atlas, session.atlas { frontend := Source.frontend, locator, tree } = .ok atlas ∧
      (∀ package, session.requested.contains package = true →
        ∃ checked record, session.checked? package = some checked ∧
          atlas.packages.get? package = some record ∧ record.name = checked.name ∧
          (∀ sort name, (record.declarations sort).contains name = true ↔
            ∃ declaration ∈ checked.declarations, declaration.name = name ∧
              (declaration.typeAs? sort).isSome = true) ∧
          (∀ sort name id, (record.declarations sort).get? name = some id →
            ∃ node type target, atlas.node? id = some node ∧
              node.kind = .declaration (some target) ∧
              firstDeclared? checked.declarations sort name = some type ∧
              atlas.findType? type.canonicalName = some target) ∧
          (∀ declaration ∈ checked.declarations,
            declaration.declared = .type (.named package declaration.name) →
            record.types.contains declaration.name = true) ∧
          (∀ name, checked.definitions.contains name = true →
            record.types.contains name = true) ∧
          ∀ path, record.imports.contains path = true ↔
            ∃ file ∈ session.sources.filesOf package, ∃ literal ∈ file.imports,
              ImportPath.canonical literal = path) ∧
      ∀ package record, session.requested.contains package = false →
        atlas.packages.get? package = some record →
        record = { Package.marker package with types := record.types } := by
  intro session
  obtain ⟨accounted, grounded⟩ : session.Accounted ∧ Grounded Source.frontend session :=
    grounded_serveOver (accounted_start config) (grounded_start _ config) locator asked
  refine ⟨_, accounted.atlas_eq, fun package requested => ?_, fun package record other there => ?_⟩
  · obtain ⟨checked, done, known⟩ := accounted.checked?_of_requested requested
    obtain ⟨files, -, imported?, -, -, ok⟩ := grounded.answered package checked done
    have lists := Check.lists_of_package ok
    have surveyed := surveyed_foldl { frontend := Source.frontend, locator, tree } session
      session.nodup_requestedPackages (fun path _ => Atlas.unsurveyed_empty path)
      (accounted.mem_requestedPackages.2 requested) known
    generalize session.requestedPackages.foldl (session.surveyOne _) {} = atlas at surveyed
    obtain ⟨record, recorded⟩ := (Table.contains_iff _ _).1 surveyed.recorded
    refine ⟨checked, record, known, recorded, ?_, ?_, ?_, ?_, fun name defined => ?_, ?_⟩
    · rw [← Atlas.package_of_get? recorded]
      exact surveyed.name
    · exact fun sort name => (surveyed.record recorded sort name).1
    · exact fun sort name => (surveyed.record recorded sort name).2
    · exact fun declaration mem declared => surveyed.record_types recorded mem declared
    · obtain ⟨declaration, mem, rfl, declared⟩ := lists.defined name defined
      exact surveyed.record_types recorded mem declared
    · exact surveyed.record_imports grounded.indexed recorded
  · have outside : package ∉ session.requestedPackages := by
      rw [accounted.mem_requestedPackages, other]
      exact Bool.false_ne_true
    have passes := passes_foldl { frontend := Source.frontend, locator, tree } session
      session.nodup_requestedPackages (fun path _ => Atlas.unsurveyed_empty path) outside
    exact record_of_unsurveyed passes.untyped there

end Session

end GoAtlas
