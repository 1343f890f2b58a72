import Mathlib.Data.List.ProdSigma
import GoAtlas.Proofs.Check.Passes

/-!
# Checks that end

Resolving follows an alias to the type that it stands for, and an embedded interface to what it
embeds in turn. Nothing stops it where a type leads to itself, so such a way has no end. It is
followed to a depth and marked there.

Where a way comes to its end, it comes to the same end with more depth (`follows_of_le`). As
there are only so many types to enter, from some depth on no further way comes to an end
(`follows_entry`). So what is marked is what ends at no depth (`ends_iff_exists`).
-/

namespace GoAtlas.Check

variable {α β : Type} {scope : Scope} {entry entry' entry'' : Entry} {file : FileScope}
variable {package name : String} {found : LocalType} {depth depth' : Nat}
variable {files : List (SourceFile SourceTree)} {imported? : String → Option Checked}

/-! ## Two ways -/

namespace Reported

theorem unending_bind (first : Reported α) (next : α → Reported β) :
    (first >>= next).unending = (first.unending || (next first.value).unending) :=
  List.any_append

/-- Where the first way ends, the second is the same. -/
def Trails (first second : Reported α) : Prop :=
  first.unending = false → second = first

theorem Trails.refl (way : Reported α) : way.Trails way :=
  fun _ => rfl

theorem Trails.bind {first second : Reported α} {next next' : α → Reported β}
    (h : first.Trails second) (h' : ∀ a, (next a).Trails (next' a)) :
    (first >>= next).Trails (second >>= next') := by
  intro ends
  rw [unending_bind, Bool.or_eq_false_iff] at ends
  have same : next' first.value = next first.value := h' _ ends.2
  rw [h ends.1]
  show Reported.mk (next' first.value).value _ = Reported.mk (next first.value).value _
  rw [same]

theorem Trails.trans {first second third : Reported α} (h : first.Trails second)
    (h' : second.Trails third) : first.Trails third := by
  intro ends
  have same := h ends
  exact (h' (same ▸ ends)).trans same

end Reported

open Reported

/-- Where the first entry comes to the end of a declared type, so does the second. -/
structure Follows (scope : Scope) (entry entry' : Entry) : Prop where
  ofAlias : ∀ name found, scope.types.get? name = some found →
    (entry.ofAlias found).Trails (entry'.ofAlias found)
  ofInterface : ∀ name found elements, scope.types.get? name = some found →
    found.tree = .interface elements →
      (entry.ofInterface (.named scope.package name) found.file elements).Trails
        (entry'.ofInterface (.named scope.package name) found.file elements)

theorem Follows.matches (h : Follows scope entry entry') :
    Matches (@Trails) scope scope.files entry entry' :=
  ⟨.refl, .bind, fun _ => rfl, h.ofAlias, h.ofInterface⟩

/-! ## Depth -/

theorem follows_zero (scope : Scope) (entry : Entry) : Follows scope (entryAt scope 0) entry :=
  ⟨fun _ _ _ ends => (by cases ends), fun _ _ _ _ _ ends => (by cases ends)⟩

theorem Follows.deeper (h : Follows scope (entryAt scope depth) (entryAt scope depth')) :
    Follows scope (entryAt scope (depth + 1)) (entryAt scope (depth' + 1)) where
  ofAlias _ found _ := h.matches.resolve found.tree
  ofInterface _ _ elements _ _ := (h.matches.resolveElements _ elements ∅).bind fun _ => .refl _

/-- What ends at some depth ends below it too. -/
theorem follows_of_le (scope : Scope) (le : depth ≤ depth') :
    Follows scope (entryAt scope depth) (entryAt scope depth') := by
  induction depth generalizing depth' with
  | zero => exact follows_zero scope _
  | succ depth ih =>
    obtain ⟨depth', rfl⟩ := Nat.exists_eq_add_of_lt le
    exact (ih (Nat.le_add_right depth depth')).deeper

theorem Follows.trans (h : Follows scope entry entry') (h' : Follows scope entry' entry'') :
    Follows scope entry entry'' where
  ofAlias name found there := (h.ofAlias name found there).trans (h'.ofAlias name found there)
  ofInterface name found elements there tree :=
    (h.ofInterface name found elements there tree).trans
      (h'.ofInterface name found elements there tree)

/-! ## How many types end -/

/-- The declared types, each to be entered as an alias and as an interface. -/
def doors (scope : Scope) : List ((String × LocalType) × Bool) :=
  scope.types.entries ×ˢ [false, true]

/-- The type, entered at most so deep, comes to an end. -/
def isEnded (scope : Scope) (depth : Nat) : (String × LocalType) × Bool → Bool
  | ((_, found), false) => !((entryAt scope depth).ofAlias found).unending
  | ((name, ⟨.interface elements, _, file⟩), true) =>
    !((entryAt scope depth).ofInterface (.named scope.package name) file elements).unending
  | _ => false

theorem countP_lt_countP {p q : α → Bool} {members : List α} {a : α}
    (weaker : ∀ b ∈ members, p b = true → q b = true) (mem : a ∈ members) (first : p a = false)
    (second : q a = true) : members.countP p < members.countP q := by
  obtain ⟨before, after, rfl⟩ := List.append_of_mem mem
  have start : before.countP p ≤ before.countP q :=
    List.countP_mono_left fun b mem => weaker b (List.mem_append_left _ mem)
  have final : after.countP p ≤ after.countP q := List.countP_mono_left fun b mem =>
    weaker b (List.mem_append_right _ (List.mem_cons_of_mem _ mem))
  simp only [List.countP_append, List.countP_cons, first, second]
  simp only [Bool.false_eq_true, if_false, if_true]
  omega

theorem mem_doors (there : scope.types.get? name = some found) (sort : Bool) :
    ((name, found), sort) ∈ doors scope := by
  refine List.mem_product.2 ⟨(Table.mem_entries_iff ..).2 there, ?_⟩
  cases sort <;> decide

/-- The types that end are not lost where an entry follows another. -/
theorem Follows.isEnded {door : (String × LocalType) × Bool}
    (h : Follows scope (entryAt scope depth) (entryAt scope depth')) (mem : door ∈ doors scope)
    (ends : isEnded scope depth door = true) : isEnded scope depth' door = true := by
  obtain ⟨⟨name, tree, isAlias, file⟩, sort⟩ := door
  have there := (Table.mem_entries_iff ..).1 (List.mem_product.1 mem).1
  cases sort with
  | false =>
    rw [Check.isEnded, h.ofAlias name _ there ((Bool.not_eq_true' _).mp ends)]
    exact ends
  | true =>
    cases tree with
    | interface elements =>
      rw [Check.isEnded, h.ofInterface name _ elements there rfl ((Bool.not_eq_true' _).mp ends)]
      exact ends
    | _ => cases ends

/-- With one step more, either nothing new comes to an end or the count goes up. -/
theorem follows_or_lt (scope : Scope) (depth : Nat) :
    Follows scope (entryAt scope (depth + 1)) (entryAt scope depth) ∨
      (doors scope).countP (isEnded scope depth) <
        (doors scope).countP (isEnded scope (depth + 1)) := by
  have onward := follows_of_le scope (Nat.le_add_right depth 1)
  by_cases stable : ∀ door ∈ doors scope,
      isEnded scope (depth + 1) door = true → isEnded scope depth door = true
  · refine .inl ⟨fun name found there ends => ?_, fun name found elements there tree ends => ?_⟩
    · have ended := stable _ (mem_doors there false) ((Bool.not_eq_true' _).mpr ends)
      exact (onward.ofAlias name found there ((Bool.not_eq_true' _).mp ended)).symm
    · obtain ⟨written, isAlias, file⟩ := found
      obtain rfl : written = .interface elements := tree
      have ended := stable _ (mem_doors there true) ((Bool.not_eq_true' _).mpr ends)
      exact (onward.ofInterface name _ elements there rfl ((Bool.not_eq_true' _).mp ended)).symm
  · simp only [not_forall, Bool.not_eq_true] at stable
    obtain ⟨door, mem, now, before⟩ := stable
    exact .inr (countP_lt_countP (fun _ mem => onward.isEnded mem) mem before now)

theorem exists_follows_or_le (scope : Scope) (steps : Nat) : (∃ depth < steps,
    Follows scope (entryAt scope (depth + 1)) (entryAt scope depth)) ∨
      steps ≤ (doors scope).countP (isEnded scope steps) := by
  induction steps with
  | zero => exact .inr (Nat.zero_le _)
  | succ steps ih =>
    obtain ⟨depth, below, stable⟩ | reached := ih
    · exact .inl ⟨depth, Nat.lt_succ_of_lt below, stable⟩
    · exact (follows_or_lt scope steps).imp (fun stable => ⟨steps, Nat.lt_succ_self _, stable⟩)
        fun more => Nat.lt_of_le_of_lt reached more

/-- The count goes up only so far. -/
theorem exists_follows (scope : Scope) : ∃ depth ≤ 2 * scope.types.entries.length,
    Follows scope (entryAt scope (depth + 1)) (entryAt scope depth) := by
  obtain ⟨depth, below, stable⟩ | reached :=
    exists_follows_or_le scope (2 * scope.types.entries.length + 1)
  · exact ⟨depth, Nat.le_of_lt_succ below, stable⟩
  · have most : (doors scope).length = scope.types.entries.length * 2 := List.length_product ..
    have ended := reached.trans List.countP_le_length
    omega

/-- From where nothing new comes to an end, nothing does at any depth. -/
theorem Follows.from_below
    (stable : Follows scope (entryAt scope (depth + 1)) (entryAt scope depth)) (more : Nat) :
    Follows scope (entryAt scope (depth + more + 1)) (entryAt scope (depth + more)) ∧
      Follows scope (entryAt scope (depth + more)) (entryAt scope depth) := by
  induction more with
  | zero => exact ⟨stable, follows_of_le scope (Nat.le_refl depth)⟩
  | succ more ih => exact ⟨ih.1.deeper, ih.1.trans ih.2⟩

/-- What ends at any depth ends at the depth that the declared types allow. -/
theorem follows_entry (scope : Scope) (depth : Nat) :
    Follows scope (entryAt scope depth) scope.entry := by
  obtain ⟨enough, le, stable⟩ := exists_follows scope
  obtain le' | ⟨more, rfl⟩ :=
    (Nat.le_total depth enough).imp_right Nat.exists_eq_add_of_le
  · exact follows_of_le scope (by omega)
  · exact (stable.from_below more).2.trans (follows_of_le scope (by omega))

/-- A type is resolved to the end exactly if there is a depth at which it is: what is marked
has no end. -/
theorem ends_iff_exists (scope : Scope) (file : FileScope) (tree : TypeTree) :
    (resolve scope scope.entry file tree).unending = false ↔
      ∃ depth, (resolve scope (entryAt scope depth) file tree).unending = false := by
  constructor
  · exact fun ends => ⟨_, ends⟩
  · rintro ⟨depth, ends⟩
    rw [(follows_entry scope depth).matches.resolve tree ends]
    exact ends

/-! ## Packages -/

theorem package_eq_unending_iff {rest : List (SourceFile SourceTree)}
    {source : SourceFile SourceTree} :
    Check.package package (source :: rest) imported? = .error .unending ↔
      (resolved package source.packageName imported? (source :: rest)).unending = true := by
  rw [Check.package]
  split
  · next silent =>
    rw [Reported.unending, List.isEmpty_iff.1 silent]
    exact ⟨fun ok => (by cases ok), fun marked => (by cases marked)⟩
  · split
    · next marked => exact ⟨fun _ => marked, fun _ => rfl⟩
    · next ends => exact ⟨fun errors => (by cases errors), fun marked => absurd marked ends⟩

theorem ends_fileScopes (package first : String) (files : List (SourceFile SourceTree)) :
    (fileScopes imported? package first files).unending = false := by
  induction files with
  | nil => rfl
  | cons file rest ih =>
    have given : (fileScope imported? file).unending = false := by
      refine List.any_eq_false.2 fun complaint mem => ?_
      obtain ⟨import_, -, missing⟩ := List.mem_filterMap.1 mem
      split at missing <;> cases missing
      exact Bool.false_ne_true
    rw [Reported.unending, complaints_fileScopes_cons, List.any_append, List.any_append]
    refine Bool.or_eq_false_iff.2 ⟨?_, Bool.or_eq_false_iff.2 ⟨given, ih⟩⟩
    split <;> rfl

theorem packageTypes_undeclared (none : ∀ file ∈ files, file.unit.declarations = [])
    (types : Table LocalType) : packageTypes (scopedFiles imported? files) types = pure types := by
  induction files with
  | nil => rfl
  | cons file rest ih =>
    obtain ⟨here, others⟩ := List.forall_mem_cons.1 none
    rw [scopedFiles, List.map_cons, packageTypes, here]
    exact ih others

/-- Where nothing is declared, nothing leads to itself. -/
theorem ends_of_undeclared (none : ∀ file ∈ files, file.unit.declarations = []) :
    Check.package package files imported? ≠ .error .unending := by
  cases files with
  | nil => exact fun errors => (by cases errors)
  | cons source rest =>
    have bare : trees (scopedFiles imported? (source :: rest)) = [] := by
      refine List.eq_nil_iff_forall_not_mem.2 fun ⟨file, tree⟩ mem => ?_
      obtain ⟨source, inside, written, -⟩ := mem_trees_iff.1 mem
      rw [none source inside] at written
      cases written
    have types := @packageTypes_undeclared _ imported? none ∅
    rw [Ne, package_eq_unending_iff, Bool.not_eq_true, Reported.unending, resolved_eq,
      declarations_eq, methods_eq, bare, filesScope, types]
    simp only [List.any_append, Bool.or_eq_false_iff]
    exact ⟨⟨ends_fileScopes .., rfl⟩, rfl, rfl, rfl⟩

end GoAtlas.Check
