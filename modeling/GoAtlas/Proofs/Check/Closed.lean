import Mathlib.Logic.Function.Basic
import GoAtlas.Proofs.Check.Sound

/-!
# Closed families of packages

A family of packages is closed if none of them refers to anything but primitives, `error` and
the types that packages of the family define. A package that is checked without complaints,
with its imports taken from a closed family, can be added to the family
(`closed_of_package`).
-/

namespace GoAtlas.Check

/-! ## Families of packages -/

/-- What a type may refer to: a primitive, `error`, or a type that a package of the family
defines. -/
def Known (family : String → Option Checked) : TypeExpr → Prop
  | .named package name => package = "" ∧ name = "error" ∨
      ∃ checked, family package = some checked ∧ checked.definitions.contains name = true
  | .other _ => False
  | _ => True

/-- No package of the family refers to anything else. -/
def Closed (family : String → Option Checked) : Prop :=
  ∀ path checked, family path = some checked → checked.Every (Known family)

/-- A larger family knows more. -/
theorem Known.mono {family larger : String → Option Checked}
    (extends_ : ∀ path checked, family path = some checked → larger path = some checked)
    {type : TypeExpr} (h : Known family type) : Known larger type := by
  cases type with
  | named package name =>
    rcases h with predeclared | ⟨checked, there, defined⟩
    · exact .inl predeclared
    · exact .inr ⟨checked, extends_ package checked there, defined⟩
  | other description => exact h
  | _ => trivial

/-- A package that is checked without complaints, with imports from a closed family, refers
only to the family and to itself. -/
theorem closed_of_package {family : String → Option Checked} {path : String}
    {files : List (SourceFile SourceTree)} {imported? : String → Option Checked}
    {checked : Checked} (closed : Closed family) (new : family path = none)
    (imported : ∀ literal other, imported? literal = some other → family other.path = some other)
    (ok : Check.package path files imported? = .ok checked) :
    checked.path = path ∧ Closed (Function.update family path (some checked)) := by
  have extends_ : ∀ other found, family other = some found →
      Function.update family path (some checked) other = some found := by
    intro other found there
    rw [Function.update_of_ne]
    · exact there
    · rintro rfl
      rw [new] at there
      cases there
  have weaken : ∀ type, Known family type →
      Known (Function.update family path (some checked)) type :=
    fun type => Known.mono extends_
  obtain ⟨scope, resolves⟩ := resolves_of_package ok
  refine ⟨resolves.path, fun other found there => ?_⟩
  by_cases same : other = path
  · subst same
    rw [Function.update_self] at there
    cases there
    refine every_of_package ok (fun _ _ => trivial) (fun _ => trivial) (.inl ⟨rfl, rfl⟩) ?_ ?_
    · intro name defined
      exact .inr ⟨checked, Function.update_self .., defined⟩
    · intro literal other given
      exact (closed other.path other (imported literal other given)).mono weaken
  · rw [Function.update_of_ne same] at there
    exact (closed other found there).mono weaken

/-! ## Two packages -/

def libText : String :=
  "package lib\n\ntype Base interface \x7b\n\tName() string\n\x7d\n\ntype Tags = map[string]Base\n"

def appText : String :=
  "package app\n\nimport \"lib\"\n\ntype Both interface \x7b\n\tlib.Base\n\terror\n\x7d\n\n"
    ++ "type Bag struct \x7b\n\tlib.Base\n\ttags lib.Tags\n\x7d\n\n"
    ++ "func (b *Bag) Add(items ...Both) error \x7b\n\x7d\n"

/-- The file with a text, as a package of its own. -/
def sampleFiles (package text : String) : List (SourceFile SourceTree) :=
  (Source.parse ⟨package ++ ".go"⟩ text).toOption.toList

def libPackage : Checked :=
  (resolved "lib" "lib" (fun _ => none) (sampleFiles "lib" libText)).value

def appImports (literal : String) : Option Checked :=
  if literal = "lib" then some libPackage else none

def appPackage : Checked :=
  (resolved "app" "app" appImports (sampleFiles "app" appText)).value

/-- The files are there, the first of them names the package, and none of them has an error. -/
abbrev Silent (package first : String) (files : List (SourceFile SourceTree))
    (imported? : String → Option Checked) : Prop :=
  files.head?.map (·.packageName) = some first ∧
    (resolved package first imported? files).complaints.isEmpty = true

theorem package_of_silent {package first : String} {files : List (SourceFile SourceTree)}
    {imported? : String → Option Checked} (silent : Silent package first files imported?) :
    Check.package package files imported? = .ok (resolved package first imported? files).value := by
  obtain ⟨named, silent⟩ := silent
  cases files with
  | nil => cases named
  | cons file rest =>
    cases named
    exact if_pos silent

/-- The second package imports the first, and refers to it in embedded interfaces, in fields,
through an alias and in the parameters of a method. -/
theorem closed_of_package_app : Check.package "app" (sampleFiles "app" appText) appImports =
      .ok appPackage ∧
    Closed (Function.update (Function.update (fun _ => none) "lib" (some libPackage)) "app"
      (some appPackage)) := by
  -- One decision for both: the second package is checked with the first, which is read once.
  have silent : Silent "lib" "lib" (sampleFiles "lib" libText) (fun _ => none) ∧
      Silent "app" "app" (sampleFiles "app" appText) appImports := by decide +kernel
  have lib : Check.package "lib" (sampleFiles "lib" libText) (fun _ => none) = .ok libPackage :=
    package_of_silent silent.1
  have app : Check.package "app" (sampleFiles "app" appText) appImports = .ok appPackage :=
    package_of_silent silent.2
  have empty : Closed fun _ => none := by
    intro path checked there
    cases there
  obtain ⟨path, closed⟩ := closed_of_package empty rfl
    (fun literal other given => by cases given) lib
  refine ⟨app, (closed_of_package closed rfl ?_ app).2⟩
  intro literal other given
  rw [appImports] at given
  split at given
  · cases given
    rw [path, Function.update_self]
  · cases given

end GoAtlas.Check
