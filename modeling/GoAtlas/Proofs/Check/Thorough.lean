import GoAtlas.Proofs.Check.Declared
import GoAtlas.Proofs.Check.Ends
import GoAtlas.Proofs.Session.Checks

/-!
# What a run needs to know of a checker

A check without errors was given every import of every file. A check of files resolves something
if it ends, and what it resolves refers to other packages only as its imports do.
`Frontend.Thorough` says this of a front end, which is all that a run needs to know of it to find
circular imports. Whether a check ends may depend on its imports (`Frontend.Ends`), but not on
such as refer back to the package: a run hands none to its checks.
-/

namespace GoAtlas

variable {U : Type}

/-- The file is what the front end reads from some text. -/
def Frontend.Gives (frontend : Frontend U) (file : SourceFile U) : Prop :=
  ∃ path content read, frontend.parse path content = .ok read ∧ file = { read with path }

/-- The checked package declares no type of the package, other than `error` under a new name. -/
def Check.Foreign (package : String) (checked : Checked) : Prop :=
  ∀ name own, declaredType? checked name = some (.named package own) →
    TypeExpr.named package own = errorType

/-- The check of the files ends, whatever is known of their imports, as long as none of these
refers to a type of the package itself. -/
def Frontend.Ends (frontend : Frontend U) (package : String) (files : List (SourceFile U)) :
    Prop :=
  ∀ imported?, (∀ literal given, imported? literal = some given → Check.Foreign package given) →
    frontend.check package files imported? ≠ .error .unending

/-- Checks of the front end resolve something if they end, and succeed only where all imports
are given. What they are given leads them no further than it refers to. -/
structure Frontend.Thorough (frontend : Frontend U) : Prop where
  resolves : ∀ package files imported? fault, files ≠ [] →
    frontend.check package files imported? = .error fault →
      fault = .unending ∨ ∃ message checked, fault = .errors message (some checked)
  imports : ∀ package files imported? checked, (∀ file ∈ files, frontend.Gives file) →
    frontend.check package files imported? = .ok checked →
      ∀ file ∈ files, ∀ literal ∈ file.imports, (imported? literal).isSome = true
  foreign : ∀ package files imported? other, other ≠ package →
    (∀ literal given, imported? literal = some given → Check.Foreign other given) →
    ∀ checked, (CheckState.ofAnswer (frontend.check package files imported?)).checked? =
      some checked → Check.Foreign other checked
  nothing : ∀ package, frontend.Ends package []

theorem Environment.gives_of_file? {env : Environment U} {path : FilePath} {file : SourceFile U}
    (found : env.file? path = some file) : env.frontend.Gives file := by
  obtain ⟨content, read, -, parsed, file⟩ := read_of_file? found
  exact ⟨path, content, read, parsed, file⟩

/-! ## References to other packages -/

namespace Check

variable {scope : Scope} {package other own : String} {imported? : String → Option Checked}
  {files : List (SourceFile SourceTree)} {checked : Checked} {file : FileScope} {tree : TypeTree}

section

variable (apart : other ≠ scope.package)
  (foreign : ∀ literal given, scope.imported? literal = some given → Foreign other given)

include apart foreign

theorem eq_errorType_of_resolve {entry : Entry}
    (aliases : ∀ found, (entry.ofAlias found).value = .named other own →
      TypeExpr.named other own = errorType)
    (named : (resolve scope entry file tree).value = .named other own) :
    TypeExpr.named other own = errorType := by
  cases tree with
  | ident name =>
    rw [resolve, resolveIdent] at named
    split at named
    · cases named
    · split at named
      · next found _ =>
        split at named
        · exact aliases found named
        · cases named
          exact absurd rfl apart
      · split at named
        · exact named.symm
        · split at named <;> cases named
  | qualified qualifier name =>
    rw [resolve, resolveQualified] at named
    split at named
    · cases named
    · split at named
      · cases named
      · next given there =>
        split at named
        · next declared => exact foreign _ given there name own (named ▸ declared)
        · cases named
  | _ =>
    rw [resolve] at named
    cases named

/-- However deep aliases are followed, they lead to another package only by way of an import. -/
theorem eq_errorType_of_entryAt {depth : Nat}
    (named : (resolve scope (entryAt scope depth) file tree).value = .named other own) :
    TypeExpr.named other own = errorType := by
  induction depth generalizing file tree with
  | zero =>
    refine eq_errorType_of_resolve apart foreign (fun found named => ?_) named
    cases named
  | succ depth ih => exact eq_errorType_of_resolve apart foreign (fun _ => ih) named

end

section

variable (known : (CheckState.ofAnswer (Check.package package files imported?)).checked? =
  some checked)

include known

/-- What is kept of a check is all that its files come to. -/
theorem resolved_of_ofAnswer :
    ∃ first, checked = (resolved package first imported? files).value := by
  cases files with
  | nil => cases known
  | cons first rest =>
    simp only [Check.package] at known
    split at known
    · cases known
      exact ⟨_, rfl⟩
    · split at known <;> cases known
      exact ⟨_, rfl⟩

theorem foreign_of_ofAnswer (apart : other ≠ package)
    (foreign : ∀ literal given, imported? literal = some given → Foreign other given) :
    Foreign other checked := by
  obtain ⟨first, rfl⟩ := resolved_of_ofAnswer known
  intro name own declared
  obtain ⟨declaration, mem, here⟩ := List.exists_of_findSome?_eq_some declared
  rw [resolved_eq] at mem
  obtain ⟨file, -, ⟨called, line, what⟩, -, value⟩ := mem_declarations_iff.1 mem
  cases what with
  | type type isAlias =>
    cases isAlias with
    | false =>
      cases value
      dsimp only at here
      split at here <;> cases here
      exact absurd rfl apart
    | true =>
      cases value
      dsimp only at here
      split at here
      · exact eq_errorType_of_entryAt apart foreign (Option.some.inj here)
      · cases here
  | func receiver signature =>
    cases receiver <;> cases value
    cases here
  | var type =>
    cases value
    cases here
  | const type untyped =>
    cases type <;>
    · cases value
      cases here

end

end Check

namespace Source

variable {file : SourceFile SourceTree}

theorem imports_of_gives (gives : frontend.Gives file) :
    file.imports = file.unit.imports.map (·.path) := by
  obtain ⟨path, content, read, parsed, rfl⟩ := gives
  exact (readLines_of_parse (parse_of_frontend parsed)).2.1

theorem thorough_frontend : frontend.Thorough where
  resolves package files imported? fault ne failed := by
    cases files with
    | nil => exact absurd rfl ne
    | cons first rest =>
      simp only [frontend, Check.package] at failed
      split at failed
      · cases failed
      · split at failed <;> cases failed
        · exact .inl rfl
        · exact .inr ⟨_, _, rfl⟩
  imports package files imported? checked gives ok file mem literal names := by
    cases files with
    | nil => cases mem
    | cons first rest =>
      simp only [frontend, Check.package] at ok
      split at ok
      · next none =>
        rw [List.isEmpty_iff, Check.resolved, Check.Reported.complaints_bind,
          List.append_eq_nil_iff, Check.scopeOf, Check.Reported.complaints_bind,
          List.append_eq_nil_iff] at none
        rw [imports_of_gives (gives file mem), List.mem_map] at names
        obtain ⟨import_, mem', rfl⟩ := names
        exact Check.fileScope_eq_nil (Check.fileScopes_eq_nil_iff.1 none.1.1 file mem).2 mem'
      · split at ok <;> cases ok
  foreign _ _ _ _ apart foreign _ known := Check.foreign_of_ofAnswer known apart foreign
  nothing _ _ _ unending := by cases unending

end Source

end GoAtlas
