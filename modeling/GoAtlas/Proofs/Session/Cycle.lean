import Mathlib.Logic.Relation
import GoAtlas.Proofs.Session.Ranked

/-!
# Circular imports

The checks that were made have an order in which each package comes after those it
imports, so no cycle of imports runs through them. A package that leads to a cycle
therefore cannot be added, as long as no package that failed before hides the cycle
(`add_fails_on_cycle`). This is said where the check of every package ends (`AllEnd`), so
that the call returns. One that is imported by the package itself does not hide the cycle:
its import is missing, and the check fails. One that is further away does, because the
package between the two is checked with errors and passed over (`added_past_cycle`).
-/

namespace GoAtlas.Session

open Relation

variable {U : Type} {env : Environment U} {roots : Roots} {origin session after : Session U}
  {package location : String}

section

variable {target : String} (h : Ranked env roots origin session)
  (unfailed : ∀ other target, ReflTransGen (Imports env roots origin) package other →
    Imports env roots origin other target → ¬ session.Fails target)
  (mem : package ∈ session.checkOrder)

include h unfailed mem

theorem Ranked.reaches (way : ReflTransGen (Imports env roots origin) package target) :
    target ∈ session.checkOrder := by
  induction way with
  | refl => exact mem
  | @tail other target way edge ih =>
    have lower := (h.ordered other ih target edge).resolve_right (unfailed other target way edge)
    exact List.idxOf_lt_length_iff.1 (lower.trans (List.idxOf_lt_length_iff.2 ih))

/-- Packages that are in order come before every package that leads to them. -/
theorem Ranked.descends {other : String}
    (way : ReflTransGen (Imports env roots origin) package other)
    (onward : TransGen (Imports env roots origin) other target) :
    session.checkOrder.idxOf target < session.checkOrder.idxOf other := by
  have step {middle target : String}
      (way : ReflTransGen (Imports env roots origin) package middle)
      (edge : Imports env roots origin middle target) :
      session.checkOrder.idxOf target < session.checkOrder.idxOf middle :=
    (h.ordered middle (h.reaches unfailed mem way) target edge).resolve_right
      (unfailed middle target way edge)
  induction onward with
  | single edge => exact step way edge
  | tail onward edge ih => exact (step (way.trans onward.to_reflTransGen) edge).trans ih

/-- So no cycle runs through them. -/
theorem Ranked.no_cycle {looped : String}
    (way : ReflTransGen (Imports env roots origin) package looped)
    (cycle : TransGen (Imports env roots origin) looped looped) : False :=
  lt_irrefl _ (h.descends unfailed mem way cycle)

end

/-- Some package on a way from the package has failed, and is imported by a package
other than it. -/
def Shielded (env : Environment U) (roots : Roots) (origin session : Session U)
    (package : String) : Prop :=
  ∃ other target,
    TransGen (fun other target => Imports env roots origin other target ∧ ¬ session.Fails target)
      package other ∧
    Imports env roots origin other target ∧ session.Fails target

/-- Where nothing that failed is in the way, all imports of an added package are open. -/
theorem unfailed_of_done (h : Ranked env roots origin after) (settles : Settles session after)
    {checked : Checked} (done : after.checks.get? package = some (.done checked))
    (clear : ¬ Shielded env roots origin session package) {target : String}
    (way : TransGen (Imports env roots origin) package target) :
    TransGen (fun other target => Imports env roots origin other target ∧ ¬ session.Fails target)
      package target := by
  induction way with
  | single edge =>
    refine .single ⟨edge, fun fails => ?_⟩
    have given := h.given package checked done _ edge
    rw [(fails.later settles).checked?_eq_none] at given
    cases given
  | tail way edge ih =>
    exact ih.tail ⟨edge, fun fails => clear ⟨_, _, ih, edge, fails⟩⟩

/-- Where all checks end: whatever was asked before, a package that leads to a cycle of imports
is refused, unless a package that failed before shields it from the cycle. -/
theorem add_fails_on_cycle {env : Environment SourceTree} (front : env.frontend = Source.frontend)
    (search : env.locator = .search roots) (tidy : env.tree.WellFormed) (config : Config)
    (ends : AllEnd env roots (start config)) (commands : List Command) {looped : String}
    (resolves : Resolves env roots (start config) location package)
    (way : ReflTransGen (Imports env roots (start config)) package looped)
    (cycle : TransGen (Imports env roots (start config)) looped looped)
    (clear : ¬ Shielded env roots (start config) ((start config).runAll env commands) package) :
    ∃ failure, failure ≠ .unending ∧
      (((start config).runAll env commands).perform (add env location)).1 = .error failure := by
  have thorough : env.frontend.Thorough := front ▸ Source.thorough_frontend
  have ranked : Ranked env roots (start config) ((start config).runAll env commands) :=
    runAll_keeps (ranked_task search tidy thorough) (ranked_start env roots config) commands
  generalize (start config).runAll env commands = session at ranked clear
  have added := added_importRequested search tidy thorough (importDepth env session) location ranked
  rw [add, perform_get_bind]
  generalize session.perform (importRequested env (importDepth env session) location) = outcome
    at added
  obtain ⟨result, after⟩ := outcome
  cases result with
  | error failure => exact ⟨failure, (added.returned ends).ne, rfl⟩
  | ok value =>
    exfalso
    obtain ⟨first, ⟨located, _, loadable, -⟩, -⟩ := TransGen.head'_iff.1 (cycle.trans_right way)
    obtain ⟨checked, done⟩ := added.done package located rfl resolves loadable
    have handed : package ∈ after.checkOrder := by
      refine added.ranked.handed package ?_
      rw [checked?, done]
      rfl
    refine added.ranked.no_cycle (fun other target way edge fails => ?_) handed way cycle
    have reached := unfailed_of_done added.ranked added.settles done clear (.tail' way edge)
    obtain ⟨_, -, -, unfailed⟩ := TransGen.tail'_iff.1 reached
    exact unfailed (added.spares rfl target fails)

/-- Two packages that import each other, one that imports the first of them, and one that
imports that one. -/
def cyclicTree : FileTree :=
  (((({} : FileTree).put ⟨"/x/a/p.go"⟩ (.text "package a\n\nimport \"x/b\"\n")).put
    ⟨"/x/b/p.go"⟩ (.text "package b\n\nimport \"x/a\"\n")).put
    ⟨"/x/m/p.go"⟩ (.text "package m\n\nimport \"x/a\"\n")).put
    ⟨"/x/r/p.go"⟩ (.text "package r\n\nimport \"x/m\"\n")

def cyclicSource : Environment SourceTree :=
  topSource cyclicTree

def cyclicPaths : List String := ["x/a", "x/b", "x/m", "x/r"]

def cyclicPackage (path : String) : Located :=
  { importPath := path, dir := ⟨"/" ++ path⟩, files := ["p.go"], testFiles := [] }

theorem wellFormed_cyclicTree : cyclicTree.WellFormed :=
  (((FileTree.wellFormed_empty.put _ _).put _ _).put _ _).put _ _

theorem locate_cyclicPackage : ∀ path ∈ cyclicPaths,
    topRoots.locate cyclicTree (start {} : Session SourceTree).tags path =
      .ok (cyclicPackage path) := by
  decide +kernel

theorem canonical_cyclicPaths : ∀ path ∈ cyclicPaths, ImportPath.canonical path = path := by
  decide +kernel

/-- Each package of the tree stands in one directory. -/
theorem dir_cyclicPackage {path : String} (mem : path ∈ cyclicPaths) {other : Located}
    (leads : topRoots.Leads cyclicTree (start {} : Session SourceTree).tags other)
    (canonical : other.package = path) :
    other.dir = (cyclicPackage path).dir := by
  have listed : ∀ entry ∈ ([], Entry.directory) :: cyclicTree.entries, ∀ path ∈ cyclicPaths,
      ImportPath.canonical ((topRoots.importPath? cyclicTree (Place.path entry.1)).getD
          (Place.path entry.1).text) = path →
        Place.path entry.1 = (cyclicPackage path).dir := by
    decide +kernel
  have looked : ∀ path ∈ cyclicPaths,
      (topRoots.directory cyclicTree path).map (fun found => Place.path found.1) =
        .ok (cyclicPackage path).dir := by
    decide +kernel
  have plain : ∀ entry ∈ cyclicTree.entries, "vendor" ∉ entry.1 := by decide +kernel
  subst canonical
  exact leads.dir_eq plain (looked _ mem) fun entry there => listed entry there _ mem

theorem loadable_cyclicPackage {path : String} (mem : path ∈ cyclicPaths) :
    Loadable cyclicSource topRoots (start {}) path (cyclicPackage path) where
  leads := Roots.leads_of_locate (.inl (locate_cyclicPackage path mem))
  canonical := canonical_cyclicPaths path mem
  alone _ leads canonical := dir_cyclicPackage mem leads canonical
  selects := List.cons_ne_nil _ _
  readable := by
    revert path
    decide +kernel

theorem resolves_cyclicPackage {path : String} (mem : path ∈ cyclicPaths) :
    Resolves cyclicSource topRoots (start {}) path path where
  found := ⟨_, locate_cyclicPackage path mem, canonical_cyclicPaths path mem⟩
  own _ _ _ := rfl

/-- The imports of the tree. -/
def cyclicImports : List (String × String) :=
  [("x/a", "x/b"), ("x/b", "x/a"), ("x/m", "x/a"), ("x/r", "x/m")]

theorem written_cyclicPackage : ∀ path ∈ cyclicPaths,
    ∀ name ∈ (cyclicPackage path).selection false,
      (cyclicSource.file? ((cyclicPackage path).dir.join name)).map (·.imports) =
        some ((cyclicImports.filter (·.1 == path)).map (·.2)) := by
  decide +kernel

theorem imports_cyclicPackage_iff (path target : String) (mem : path ∈ cyclicPaths) :
    Imports cyclicSource topRoots (start {}) path target ↔ (path, target) ∈ cyclicImports := by
  have known : ∀ edge ∈ cyclicImports, edge.2 ∈ cyclicPaths ∧ edge.2 ≠ edge.1 := by decide
  constructor
  · rintro ⟨located, -, loadable, -, name, mem', file, found, literal, named, -, resolves⟩
    have own := loadable_cyclicPackage mem
    have dir := own.alone located loadable.leads loadable.canonical
    rw [loadable.leads.selection_eq own.leads dir] at mem'
    rw [dir] at found
    have read := written_cyclicPackage path mem name mem'
    rw [found, Option.map_some] at read
    rw [Option.some.inj read] at named
    obtain ⟨edge, edge', rfl⟩ := List.mem_map.1 named
    obtain ⟨edge', same⟩ := List.mem_filter.1 edge'
    have target := resolves.unique (resolves_cyclicPackage (known edge edge').1)
    rw [← eq_of_beq same, target]
    exact edge'
  · intro edge
    obtain ⟨mem', apart⟩ := known _ edge
    have read := written_cyclicPackage path mem "p.go" List.mem_cons_self
    obtain ⟨file, found, imports⟩ := Option.map_eq_some_iff.1 read
    refine ⟨_, _, loadable_cyclicPackage mem, loadable_cyclicPackage mem', "p.go",
      List.mem_cons_self, file, found, target, ?_, apart, resolves_cyclicPackage mem'⟩
    rw [imports]
    exact List.mem_map.2 ⟨(path, target), List.mem_filter.2 ⟨edge, beq_self_eq_true _⟩, rfl⟩

theorem cycle_cyclicTree :
    TransGen (Imports cyclicSource topRoots (start {})) "x/a" "x/a" := by
  have onward := (imports_cyclicPackage_iff "x/a" "x/b" (by decide)).2 (by decide)
  have back := (imports_cyclicPackage_iff "x/b" "x/a" (by decide)).2 (by decide)
  exact .tail (.single onward) back

/-- No declaration is read from the entry. -/
def isBare : Entry → Bool
  | .text text => (Source.Progress.readLines {} 0 (Text.lines text.toList)).toOption.all
      fun progress => progress.tree.declarations.isEmpty
  | _ => true

/-- No file of the tree declares anything, so every check ends. -/
theorem allEnd_cyclicTree : AllEnd cyclicSource topRoots (start {}) := by
  have bare : cyclicTree.entries.all (fun entry => isBare entry.2) = true := by decide +kernel
  refine fun located _ _ _ => Check.ends_of_undeclared fun file mem => ?_
  obtain ⟨name, -, found⟩ := Environment.name_of_mem_readable mem
  obtain ⟨text, read, there, parsed, rfl⟩ := Environment.read_of_file? found
  obtain ⟨-, -, progress, reads, unit⟩ :=
    Source.readLines_of_parse (Source.parse_of_frontend parsed)
  obtain ⟨place, there⟩ := FileTree.mem_of_read there
  have declared := List.all_eq_true.1 bare _ there
  rw [isBare, reads] at declared
  exact (congrArg _ unit).trans (List.isEmpty_iff.1 declared)

/-- Where a package on the cycle was added, which failed, it is not hidden from the one that
imports that package. -/
theorem not_shielded_cyclicPackage :
    ¬ Shielded cyclicSource topRoots (start {}) ((start {}).runAll cyclicSource [.add "x/a"])
      "x/m" := by
  rintro ⟨other, target, way, -⟩
  obtain ⟨first, ⟨edge, unfailed⟩, -⟩ := TransGen.head'_iff.1 way
  have only : ∀ edge ∈ cyclicImports, edge.1 = "x/m" → edge.2 = "x/a" := by decide
  have first : first = "x/a" :=
    only _ ((imports_cyclicPackage_iff "x/m" first (by decide)).1 edge) rfl
  subst first
  have failed : ((start {}).runAll cyclicSource [.add "x/a"]).Fails "x/a" := by decide +kernel
  exact unfailed failed

theorem add_fails_on_cycle_again : AllEnd cyclicSource topRoots (start {}) ∧
    ∃ failure, failure ≠ .unending ∧
      (((start {}).runAll cyclicSource [.add "x/a"]).perform (add cyclicSource "x/m")).1 =
        .error failure := by
  have edge := (imports_cyclicPackage_iff "x/m" "x/a" (by decide)).2 (by decide)
  exact ⟨allEnd_cyclicTree, add_fails_on_cycle rfl rfl wellFormed_cyclicTree {} allEnd_cyclicTree
    [.add "x/a"] (resolves_cyclicPackage (by decide)) (.single edge) cycle_cyclicTree
    not_shielded_cyclicPackage⟩

/-- A package that leads to a cycle cannot be added to a session that is new, but to one where
adding a package on the cycle has failed. -/
theorem added_past_cycle :
    Resolves cyclicSource topRoots (start {}) "x/r" "x/r" ∧
      ReflTransGen (Imports cyclicSource topRoots (start {})) "x/r" "x/a" ∧
      TransGen (Imports cyclicSource topRoots (start {})) "x/a" "x/a" ∧
      ((start {}).perform (add cyclicSource "x/r")).1 = .error (.circularDependency "x/a") ∧
      (((start {}).runAll cyclicSource [.add "x/a"]).perform (add cyclicSource "x/r")).1 =
        .ok () := by
  have first := (imports_cyclicPackage_iff "x/r" "x/m" (by decide)).2 (by decide)
  have second := (imports_cyclicPackage_iff "x/m" "x/a" (by decide)).2 (by decide)
  refine ⟨resolves_cyclicPackage (by decide), .tail (.single first) second, cycle_cyclicTree,
    ?_, ?_⟩
  · decide +kernel
  · decide +kernel

end GoAtlas.Session
