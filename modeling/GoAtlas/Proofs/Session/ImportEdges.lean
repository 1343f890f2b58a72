import GoAtlas.Proofs.Session.Below
import GoAtlas.Proofs.Session.CheckedFiles
import GoAtlas.Proofs.Session.Linked

/-!
# Import edges

Which package an import leads to is decided twice. Before a check, the import is located as
it is written, and the package that is found goes under the canonical form of its own import
path. The atlas makes the canonical form of the text and looks nowhere. Every call of the
checker records what its imports were located as (`Directed`), and what a location was
located as never changes (`outlasts_known`), so the two can be compared after any requests.

They agree on a text that is an import path (`Spelled.known`), unless another package was
located before whose canonical path is spelled like it. They differ on a text that is a
directory: its edge leads to a record of that text, and not to the one of the package.
-/

namespace GoAtlas

namespace Session

variable {package : String}

/-! ## What is known stays known -/

section Known

variable {U : Type} {env : Environment U} {session after : Session U}
  {location package path : String}
variable {found : Table String} {depth : Nat}

/-- The package at a location is never another one. -/
theorem outlasts_known (env : Environment U) (location package : String) :
    Outlasts env fun session => session.knownPackage? location = some package where
  loaded other session known := by
    obtain ⟨located, there, canonical⟩ := Option.map_eq_some_iff.1 known
    rw [knownPackage?_eq ((loadsTo_loaded session other).kept there), canonical]
  undecided _ _ _ known _ := known
  conclude _ _ _ _ known := known
  request _ _ known := known
  addTags _ _ known := known

/-- A task whose failures are passed over leaves the session as it does by itself, and its
result is its own or the one that stands for a failure. -/
theorem result_of_passOver {α : Type} {task : Task U α} {value result : α}
    (ok : session.perform (tryCatch task (passOver value)) = (.ok result, after)) :
    (session.perform task).2 = after ∧
      ((session.perform task).1 = .ok result ∨ result = value) := by
  rw [perform_tryCatch] at ok
  cases done : session.perform task with
  | mk own between =>
    rw [done] at ok
    cases own with
    | ok value =>
      cases ok
      exact ⟨rfl, .inl rfl⟩
    | error failure =>
      dsimp only at ok
      rw [perform_passOver] at ok
      split at ok
      · cases ok
        exact ⟨rfl, .inr rfl⟩
      · cases ok

/-- The package that an import gives was loaded, and its check comes last. -/
theorem loaded_of_importAt
    (ok : session.perform (importAt env (depth + 1) location) = (.ok (some package), after)) :
    ∃ between, session.perform (loaded env location) = (.ok package, between) ∧
      (between.perform (check env (importAt env depth) package)).2 = after := by
  rw [importAt, perform_bind] at ok
  split at ok
  · next result between first =>
    cases result with
    | none => cases ok
    | some path =>
      obtain ⟨left, own | passed⟩ := result_of_passOver first
      · rw [perform_map] at left own
        cases loads : session.perform (loaded env location) with
        | mk given last =>
          rw [loads] at left own
          cases given with
          | error failure => cases own
          | ok value =>
            cases own
            cases left
            dsimp only at ok
            rw [perform_bind] at ok
            split at ok
            · next checks =>
              cases ok
              exact ⟨last, rfl, (result_of_passOver checks).1⟩
            · cases ok
      · cases passed
  · cases ok

/-- The package that an import gives is the one that is known at its location. -/
theorem known_of_importAt
    (ok : session.perform (importAt env depth location) = (.ok (some package), after)) :
    after.knownPackage? location = some package := by
  cases depth with
  | zero => cases ok
  | succ depth =>
    obtain ⟨between, loads, rfl⟩ := loaded_of_importAt ok
    -- the check of the package passes over what it does not know of this location
    have lasts := outlasts_known env location package
    exact lasts.keeps_check (lasts.keeps_importAt depth) package between (known_of_loaded loads)

/-! ## What a check is handed -/

/-- The packages found for the imports of a package are those known at their locations. -/
def FoundFor (session : Session U) (package : String) (found : Table String) : Prop :=
  ∀ literal path, found.get? literal = some path →
    literal ≠ package ∧ session.knownPackage? literal = some path

theorem foundFor_empty (session : Session U) (package : String) : session.FoundFor package ∅ := by
  intro literal path there
  cases there

theorem FoundFor.insert (h : session.FoundFor package found) (apart : location ≠ package)
    (known : session.knownPackage? location = some path) :
    session.FoundFor package (found.insert location path) := by
  intro literal target there
  rw [Table.get?_insert] at there
  split at there
  · next same =>
    cases there
    rw [same]
    exact ⟨apart, known⟩
  · exact h literal target there

theorem foundFor_importAll {literals : List String} {result : Table String}
    (h : session.FoundFor package found)
    (ok : session.perform (importAll (importAt env depth) package literals found) =
      (.ok result, after)) : after.FoundFor package result := by
  induction literals generalizing session found with
  | nil =>
    cases ok
    exact h
  | cons literal rest ih =>
    by_cases self : literal = package
    · rw [importAll, if_pos self] at ok
      exact ih h ok
    · rw [perform_importAll_cons self] at ok
      have kept : ∀ other path, session.knownPackage? other = some path →
          (session.perform (importAt env depth literal)).2.knownPackage? other = some path :=
        fun other path => (outlasts_known env other path).keeps_importAt depth literal session
      cases imported : session.perform (importAt env depth literal) with
      | mk answer between =>
        rw [imported] at ok kept
        cases answer with
        | error failure => cases ok
        | ok answer =>
          have still : between.FoundFor package found := by
            intro other path there
            obtain ⟨apart, known⟩ := h other path there
            exact ⟨apart, kept other path known⟩
          cases answer with
          | none => exact ih still ok
          | some path => exact ih (still.insert self (known_of_importAt imported)) ok

theorem mem_handedImports {literal : String} {answer : Option String} :
    (literal, answer) ∈ session.handedImports package found ↔
      (∃ file ∈ session.sources.filesOf package, literal ∈ file.imports) ∧
        (session.imported? found literal).map (fun checked => checked.path) = answer := by
  have written : literal ∈ NameSet.toList (NameSet.ofNames
      ((session.sources.filesOf package).flatMap fun file => file.imports)) ↔
        ∃ file ∈ session.sources.filesOf package, literal ∈ file.imports := by
    rw [NameSet.ofNames, NameSet.mem_toList_addAll, List.mem_flatMap]
    refine or_iff_left ?_
    intro mem
    cases mem
  rw [handedImports, List.mem_map, ← written]
  constructor
  · rintro ⟨other, mem, same⟩
    cases same
    exact ⟨mem, rfl⟩
  · rintro ⟨mem, rfl⟩
    exact ⟨literal, mem, rfl⟩

end Known

/-! ## The invariant -/

section Directed

variable {env : Environment SourceTree} {session after : Session SourceTree}
  {location package : String}

/-- A call of the checker is accounted for by the session: its files are still there, and what
it was handed for an import is the package that is known at the location. -/
structure Handed (session : Session SourceTree) (package : String) (paths : List FilePath)
    (imports : List (String × Option String)) : Prop where
  files : ∃ files, files <+: session.sources.filesOf package ∧
    paths = files.map (fun file => file.path) ∧
    ∀ literal, (∃ answer, (literal, answer) ∈ imports) ↔ ∃ file ∈ files, literal ∈ file.imports
  known : ∀ literal path, (literal, some path) ∈ imports →
    literal ≠ package ∧ session.knownPackage? literal = some path

/-- Imports were located before they were handed to the checker. -/
structure Directed (session : Session SourceTree) : Prop where
  gives : ∀ package, ∀ file ∈ session.sources.filesOf package, Source.frontend.Gives file
  path : ∀ package checked, session.checked? package = some checked → checked.path = package
  handed : ∀ package paths imports, .check package paths imports ∈ session.calls →
    session.Handed package paths imports
  /-- A package without errors was handed each of its imports. -/
  complete : ∀ package checked, session.checks.get? package = some (.done checked) →
    ∃ paths imports, .check package paths imports ∈ session.calls ∧
      ∀ literal answer, (literal, answer) ∈ imports → answer.isSome = true

theorem directed_start (config : Config) : Directed (start config) where
  gives _ _ mem := by cases mem
  path _ _ known := by cases known
  handed _ _ _ mem := by cases mem
  complete _ _ done := by cases done

theorem Handed.later {paths : List FilePath} {imports : List (String × Option String)}
    (h : session.Handed package paths imports)
    (files : ∀ package, session.sources.filesOf package <+: after.sources.filesOf package)
    (known : ∀ location path, session.knownPackage? location = some path →
      after.knownPackage? location = some path) : after.Handed package paths imports := by
  obtain ⟨⟨checked, prior, paths, literals⟩, found⟩ := h
  refine ⟨⟨checked, prior.trans (files package), paths, literals⟩, fun literal path mem => ?_⟩
  obtain ⟨apart, there⟩ := found literal path mem
  exact ⟨apart, known literal path there⟩

namespace Directed

variable (h : session.Directed)

include h

/-- Packages may be located and files read. -/
theorem later (checks : after.checks = session.checks)
    (calls : ∀ package paths imports, .check package paths imports ∈ after.calls ↔
      .check package paths imports ∈ session.calls)
    (gives : ∀ package, ∀ file ∈ after.sources.filesOf package, Source.frontend.Gives file)
    (files : ∀ package, session.sources.filesOf package <+: after.sources.filesOf package)
    (known : ∀ location path, session.knownPackage? location = some path →
      after.knownPackage? location = some path) : after.Directed where
  gives := gives
  path package checked there := by
    apply h.path package checked
    rwa [checked?, checks] at there
  handed package paths imports call :=
    (h.handed package paths imports ((calls ..).1 call)).later files known
  complete package checked done := by
    rw [checks] at done
    obtain ⟨paths, imports, call, given⟩ := h.complete package checked done
    exact ⟨paths, imports, (calls ..).2 call, given⟩

theorem recordParse (path : FilePath) : (session.record (.parse path)).Directed := by
  refine h.later rfl (fun package paths imports => ?_) h.gives (fun _ => List.prefix_rfl)
    fun _ _ => id
  simp [record]

theorem addFile {file : SourceFile SourceTree} (gives : Source.frontend.Gives file)
    (fresh : session.sources.containsFile package file.path = false) :
    (session.addFile package file).Directed := by
  refine h.later rfl (fun _ _ _ => Iff.rfl) (fun other old mem => ?_)
    (session.sources.filesOf_prefix_insert package file) fun _ _ => id
  rw [Session.addFile, SourceIndex.filesOf_insert fresh] at mem
  split at mem
  · rcases List.mem_append.1 mem with mem | mem
    · exact h.gives _ old mem
    · rw [List.mem_singleton.1 mem]
      exact gives
  · exact h.gives other old mem

theorem loadsTo (front : env.frontend = Source.frontend)
    (loads : LoadsTo env session location after) : after.Directed := by
  have located {located : Located} {between : Session SourceTree}
      (locates : Locates env session location located between) : between.Directed := by
    have known : ∀ other path, session.knownPackage? other = some path →
        between.knownPackage? other = some path := by
      intro other path there
      obtain ⟨old, there, canonical⟩ := Option.map_eq_some_iff.1 there
      rw [knownPackage?_eq (locates.kept there), canonical]
    obtain ⟨entries, rfl⟩ := locates.frame
    exact h.later rfl (fun _ _ _ => Iff.rfl) h.gives (fun _ => List.prefix_rfl) known
  cases loads with
  | nothing => exact h
  | refused locates elsewhere => exact located locates
  | read locates holdsTo =>
    apply @keeps_parseFiles _ env _ Directed
    · exact fun session path h => h.recordParse path
    · intro session name _ file h found fresh
      exact h.addFile (front ▸ Environment.gives_of_file? found) fresh
    · obtain ⟨directories, rfl⟩ := holdsTo.frame
      exact (located locates).later rfl (fun _ _ _ => Iff.rfl) (located locates).gives
        (fun _ => List.prefix_rfl) fun _ _ => id

/-- A check may be started, and given up before the checker is asked. -/
theorem undecided {state : CheckState} (unresolved : state.checked? = none) :
    (session.setCheck package state).Directed where
  gives := h.gives
  path other checked there := by
    rw [checked?_setCheck, unresolved] at there
    split at there
    · cases there
    · exact h.path other checked there
  handed other paths imports call :=
    (h.handed other paths imports call).later (fun _ => List.prefix_rfl) fun _ _ => id
  complete other checked done := by
    rw [setCheck, Table.get?_insert] at done
    split at done
    · cases Option.some.inj done
      cases unresolved
    · exact h.complete other checked done

/-- A package may be handed to the checker with what was found for its imports. -/
theorem conclude {found : Table String} (leads : session.FoundFor package found) :
    ((session.record (.check package ((session.sources.filesOf package).map fun file => file.path)
      (session.handedImports package found))).setCheck package
        (.ofAnswer (Check.package package (session.sources.filesOf package)
          (session.imported? found)))).Directed where
  gives := h.gives
  path other checked there := by
    rw [checked?_setCheck] at there
    split at there
    · next same =>
      rw [same]
      obtain ⟨first, rfl⟩ := Check.resolved_of_ofAnswer there
      rfl
    · exact h.path other checked there
  handed other paths imports call := by
    rcases List.mem_append.1 call with before | now
    · exact (h.handed other paths imports before).later (fun _ => List.prefix_rfl) fun _ _ => id
    · cases List.mem_singleton.1 now
      refine ⟨⟨_, List.prefix_rfl, rfl, fun literal => ?_⟩, fun literal path mem => ?_⟩
      · simp only [mem_handedImports, exists_and_left, exists_eq', and_true]
        rfl
      · obtain ⟨-, given⟩ := mem_handedImports.1 mem
        obtain ⟨checked, imported, same⟩ := Option.map_eq_some_iff.1 given
        obtain ⟨target, there, resolved⟩ := Option.bind_eq_some_iff.1 imported
        -- what is known of a package goes under the path that the import was located as
        rw [← same, h.path target checked resolved]
        exact leads literal target there
  complete other checked done := by
    rw [setCheck, Table.get?_insert] at done
    split at done
    · next same =>
      have ok := CheckState.eq_ok_of_ofAnswer (Option.some.inj done)
      rw [same]
      refine ⟨_, _, List.mem_append_right _ List.mem_cons_self, fun literal answer mem => ?_⟩
      obtain ⟨⟨file, inside, written⟩, given⟩ := mem_handedImports.1 mem
      have resolved := Source.thorough_frontend.imports _ _ _ checked (h.gives package) ok file
        inside literal written
      rw [← given, Option.isSome_map, resolved]
    · obtain ⟨paths, imports, call, given⟩ := h.complete other checked done
      exact ⟨paths, imports, List.mem_append_left _ call, given⟩

end Directed

section Tasks

variable (front : env.frontend = Source.frontend)

include front

theorem directed_loaded (location : String) : Keeps Directed (loaded env location) :=
  fun session h => h.loadsTo front (loadsTo_loaded session location)

theorem directed_check {depth : Nat}
    (one : ∀ location, Keeps Directed (importAt env depth location)) (package : String) :
    Keeps Directed (check env (importAt env depth) package) := by
  intro session h
  rw [perform_check]
  cases session.checks.get? package with
  | some state => cases state <;> exact h
  | none =>
    dsimp only
    split
    · have imported := keeps_importAll one package (session.sources.importsOf package) ∅
        (session.setCheck package .inProgress) (h.undecided rfl)
      cases imports : (session.setCheck package .inProgress).perform
          (importAll (importAt env depth) package (session.sources.importsOf package) ∅) with
      | mk result after =>
        rw [imports] at imported
        cases result with
        | error failure => exact imported.undecided rfl
        | ok found =>
          dsimp only
          rw [(perform_runCheck ..).1, front]
          exact imported.conclude (foundFor_importAll (foundFor_empty _ _) imports)
    · exact h

theorem directed_importAt (depth : Nat) (location : String) :
    Keeps Directed (importAt env depth location) := by
  induction depth generalizing location with
  | zero => exact keeps_throw _
  | succ depth ih =>
    exact keeps_importAt_succ (directed_loaded front location) (directed_check front ih)

theorem directed_importRequested (depth : Nat) (location : String) :
    Keeps Directed (importRequested env depth location) :=
  (directed_loaded front location).bind fun package =>
    (directed_check front (directed_importAt front depth) package).bind fun _ =>
      keeps_modify fun _ h => h.later rfl (fun _ _ _ => Iff.rfl) h.gives
        (fun _ => List.prefix_rfl) fun _ _ => id

theorem directed_run (request : Request) (h : session.Directed) :
    (request.run env session).Directed := by
  cases request with
  | command command =>
    exact keeps_command (directed_importRequested front)
      (fun depth => directed_check front (directed_importAt front depth)) command session h
  | addTags tags =>
    exact h.later rfl (fun _ _ _ => Iff.rfl) h.gives (fun _ => List.prefix_rfl) fun _ _ => id
  | findTypes => exact h

end Tasks

theorem directed_serveOver (h : session.Directed) (locator : Locator)
    (asked : List (FileTree × Request)) :
    (session.serveOver Source.frontend locator asked).Directed := by
  induction asked generalizing session with
  | nil => exact h
  | cons step rest ih => exact ih (directed_run rfl step.2 h)

end Directed

/-! ## What a location spells -/

section Spelled

variable {U : Type} {session : Session U} {location path : String}

/-- A package that was located at an import path has that path, or stands there under the
canonical form of its own. -/
def Spelled (session : Session U) : Prop :=
  ∀ location located, session.located.get? location = some located → isLocal location = false →
    located.importPath = location ∨ location = located.package

theorem lasting_spelled {env : Environment U} {roots : Roots}
    (search : env.locator = .search roots) : Lasting env Spelled := by
  refine lasting_located fun tags location located found => ⟨fun plain => ?_, fun _ => .inr rfl⟩
  obtain ⟨place, directory⟩ := directory_of_finds search found
  left
  rw [(Roots.directory_eq_ok directory).1, Roots.pathAt, plain, if_neg Bool.false_ne_true]

/-- An import path leads to its canonical form, unless it is the canonical path of a package
that has another one. -/
theorem Spelled.known (h : session.Spelled) (plain : isLocal location = false)
    (known : session.knownPackage? location = some path)
    (own : ImportPath.canonical location = location ∨ ∀ other located,
      session.located.get? other = some located → located.package ≠ location) :
    path = ImportPath.canonical location := by
  obtain ⟨located, there, rfl⟩ := Option.map_eq_some_iff.1 known
  rcases h location located there plain with same | canonical
  · rw [Located.package, same]
  · rcases own with idle | own
    · rw [← canonical, idle]
    · exact absurd canonical.symm (own location located there)

end Spelled

/-! ## Edges -/

/-- A package that was asked for has an edge to the canonical form of each import in its
files, and no other one. -/
theorem edges_of_requested {U : Type} {env : Environment U} {session : Session U}
    {package : String} {atlas : Atlas} (accounted : session.Accounted)
    (grounded : Grounded env.frontend session) (made : session.atlas env = .ok atlas)
    (requested : session.requested.contains package = true) :
    ∃ record, atlas.packages.get? package = some record ∧
      ∀ path, record.imports.contains path = true ↔
        ∃ file ∈ session.sources.filesOf package, ∃ literal ∈ file.imports,
          ImportPath.canonical literal = path := by
  obtain ⟨record, recorded, imports, -⟩ := accounted.reports grounded.indexed made requested
  exact ⟨record, recorded, imports⟩

/-- Whatever was asked of a session before, and however the tree changed meanwhile, the atlas can
be made. A package that was asked for was handed to the checker in one call, with the first of
its files, and every import of these was resolved. If it was resolved to a path, it is no import
of the package itself, and it is still known as that path. There is an edge to the canonical
form of its text, so there is one to the path exactly if some text has the path for its
canonical form. Below search roots this is so of every import path, unless it is not canonical
and a package was located whose canonical path it is. -/
theorem import_edges (locator : Locator) (config : Config) (asked : List (FileTree × Request))
    (tree : FileTree) :
    let session := (start config).serveOver Source.frontend locator asked
    ∃ atlas, session.atlas { frontend := Source.frontend, locator, tree } = .ok atlas ∧
      ∀ package, session.requested.contains package = true →
        ∃ record files imports, atlas.packages.get? package = some record ∧
          files <+: session.sources.filesOf package ∧
          (∀ paths given, .check package paths given ∈ session.calls ↔
            paths = files.map (fun file => file.path) ∧ given = imports) ∧
          (∀ literal, (∃ file ∈ files, literal ∈ file.imports) ↔
            ∃ path, (literal, some path) ∈ imports) ∧
          ∀ literal path, (literal, some path) ∈ imports →
            literal ≠ package ∧ session.knownPackage? literal = some path ∧
            record.imports.contains (ImportPath.canonical literal) = true ∧
            (record.imports.contains path = true ↔
              ∃ file ∈ session.sources.filesOf package, ∃ other ∈ file.imports,
                ImportPath.canonical other = path) ∧
            (record.imports.contains path = true →
              ∃ target, atlas.packages.get? path = some target ∧ target.path = path) ∧
            ∀ roots, locator = .search roots → isLocal literal = false →
              (ImportPath.canonical literal = literal ∨ ∀ other located,
                session.located.get? other = some located → located.package ≠ literal) →
              path = ImportPath.canonical literal ∧ record.imports.contains path = true := by
  intro session
  obtain ⟨accounted, grounded⟩ : session.Accounted ∧ Grounded Source.frontend session :=
    grounded_serveOver (accounted_start config) (grounded_start _ config) locator asked
  have directed : session.Directed := directed_serveOver (directed_start config) locator asked
  obtain ⟨atlas, made⟩ : ∃ atlas,
      session.atlas { frontend := Source.frontend, locator, tree } = .ok atlas :=
    ⟨_, accounted.atlas_eq⟩
  have consistent := accounted.consistent_atlas made
  refine ⟨atlas, made, fun package requested => ?_⟩
  obtain ⟨record, recorded, edges⟩ := edges_of_requested accounted grounded made requested
  obtain ⟨checked, done⟩ := accounted.requested package requested
  -- the one call that handed the package to the checker
  obtain ⟨paths, imports, call, given⟩ := directed.complete package checked done
  obtain ⟨⟨files, prior, rfl, literals⟩, located⟩ := directed.handed package paths imports call
  refine ⟨record, files, imports, recorded, prior, fun paths other => ?_, fun literal => ?_,
    fun literal path mem => ?_⟩
  · constructor
    · exact fun call' => accounted.call_unique call' call
    · rintro ⟨rfl, rfl⟩
      exact call
  · rw [← literals]
    constructor
    · rintro ⟨answer, mem⟩
      obtain ⟨path, rfl⟩ := Option.isSome_iff_exists.1 (given literal answer mem)
      exact ⟨path, mem⟩
    · rintro ⟨path, mem⟩
      exact ⟨some path, mem⟩
  · obtain ⟨apart, found⟩ := located literal path mem
    have edge : record.imports.contains (ImportPath.canonical literal) = true := by
      obtain ⟨file, inside, written⟩ := (literals literal).1 ⟨some path, mem⟩
      exact (edges _).2 ⟨file, prior.subset inside, literal, written, rfl⟩
    refine ⟨apart, found, edge, edges path, fun there => ?_, fun roots search plain own => ?_⟩
    · have among : path ∈ NameSet.toList record.imports :=
        (Table.mem_keys_iff _ _).2 ((Table.contains_iff _ _).1 there)
      obtain ⟨target, there⟩ := consistent.imported package record recorded path among
      exact ⟨target, there, consistent.keyed path target there⟩
    · have spelled : session.Spelled :=
        keeps_serveOver (fun _ _ => (lasting_spelled search).toOutlasts)
          (fun _ _ there => by cases there)
      have same := spelled.known plain found own
      rw [same]
      exact ⟨rfl, edge⟩

/-! ## Edges that lead elsewhere -/

/-- A package imports another one by its directory. -/
def besideTree : FileTree :=
  (({} : FileTree).put ⟨"/p/p.go"⟩ (.text "package p\n\nimport \"./q\"\n\ntype P q.Q\n")).put
    ⟨"/q/q.go"⟩ (.text "package q\n\ntype Q int\n")

/-- The session after packages of a tree were added. -/
def addedOver (tree : FileTree) (locations : List String) : Session SourceTree :=
  (start {}).serveOver Source.frontend (.search topRoots)
    (locations.map fun location => (tree, .command (.add location)))

/-- The package was asked for and handed to the checker with the import, but the atlas has its
edge to another path. -/
def EdgeElsewhere (session : Session SourceTree) (tree : FileTree) (package literal path : String) :
    Prop :=
  session.requested.contains package = true ∧
    (∃ paths, .check package paths [(literal, some path)] ∈ session.calls) ∧
    ∃ atlas record,
      session.atlas (topSource tree) = .ok atlas ∧
      atlas.packages.get? package = some record ∧
      record.imports.contains (ImportPath.canonical literal) = true ∧
      record.imports.contains path = false

/-- The imports that a call hands to the checker with a package. -/
def importsOfCall? (package : String) : Call → Option (List (String × Option String))
  | .parse _ => none
  | .check other _ imports => if other = package then some imports else none

theorem call_of_importsOfCall? {calls : List Call} {imports : List (String × Option String)}
    (mem : imports ∈ calls.filterMap (importsOfCall? package)) :
    ∃ paths, .check package paths imports ∈ calls := by
  obtain ⟨call, inside, same⟩ := List.mem_filterMap.1 mem
  cases call with
  | parse path => cases same
  | check other paths given =>
    rw [importsOfCall?] at same
    split at same
    · next own =>
      cases same
      rw [own] at inside
      exact ⟨paths, inside⟩
    · cases same

theorem edgeElsewhere_addedOver {tree : FileTree} {locations : List String} {literal path : String}
    (run : (addedOver tree locations).requested.contains package = true ∧
      (addedOver tree locations).calls.filterMap (importsOfCall? package) =
        [[(literal, some path)]] ∧
      ((addedOver tree locations).sources.filesOf package).map (fun file => file.imports) =
        [[literal]] ∧
      ImportPath.canonical literal ≠ path) :
    (addedOver tree locations).EdgeElsewhere tree package literal path := by
  obtain ⟨requested, call, imports, differs⟩ := run
  obtain ⟨accounted, grounded⟩ : (addedOver tree locations).Accounted ∧
      Grounded Source.frontend (addedOver tree locations) :=
    grounded_serveOver (accounted_start {}) (grounded_start _ {}) (.search topRoots) _
  obtain ⟨record, recorded, edges⟩ := @edges_of_requested _
    (topSource tree) _ package _ accounted grounded
    accounted.atlas_eq requested
  have written : ∀ other, (∃ file ∈ (addedOver tree locations).sources.filesOf package,
      ∃ literal ∈ file.imports, ImportPath.canonical literal = other) ↔
        ImportPath.canonical literal = other := by
    intro other
    obtain ⟨file, files, imports⟩ := List.map_eq_singleton_iff.1 imports
    simp [files, imports]
  refine ⟨requested, call_of_importsOfCall? (call ▸ List.mem_singleton_self _), _, record,
    accounted.atlas_eq, recorded, ?_, eq_false_of_ne_true fun there => ?_⟩
  · exact (edges _).2 ((written _).2 rfl)
  · exact differs ((written path).1 ((edges path).1 there))

/-- The edge of an import that names a directory leads to the text of the import. -/
theorem edge_to_directory :
    (addedOver besideTree ["p"]).EdgeElsewhere besideTree "p" "./q" "q" := by
  apply edgeElsewhere_addedOver
  decide +kernel

end Session

end GoAtlas
