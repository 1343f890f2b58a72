import GoAtlas.Proofs.TypeExpr.Erasure
import GoAtlas.Source.Token

/-!
# Well spelled types

A type is well spelled if names are identifiers and no keywords, package paths
have no mark of punctuation that a description uses and do not start with a dot,
identifiers that spell primitives name no type without a package, a variadic
list ends with a slice, and what is embedded is a named type or a pointer to one.
The description of a well spelled type starts with a word or with one of three
marks, and a qualified name is one word.
-/

namespace GoAtlas.Description

open Text Source

variable {name keyword package : String} {others : List MethodExpr} {method : MethodExpr} {c : Char}
  {field : FieldExpr}

/-! ## Well spelled types -/

/-- The words that are no names. -/
def keywords : List String :=
  ["break", "case", "chan", "const", "continue", "default", "defer", "else", "fallthrough",
    "for", "func", "go", "goto", "if", "import", "interface", "map", "package", "range", "return",
    "select", "struct", "switch", "type", "var"]

/-- A letter or `_`, then letters, numerals and `_`, and no keyword. -/
def isName (name : String) : Bool :=
  match name.toList with
  | [] => false
  | c :: rest => isWordStart c && rest.all isWordRest && !keywords.contains name

/-- The characters of package paths. -/
def isPathChar (c : Char) : Bool :=
  isWordRest c || c == '/' || c == '-' || c == '~' || c == '.'

/-- A package path: empty, or characters of paths with no dot in front. -/
def isPath (path : String) : Bool :=
  path.toList.all isPathChar && path.toList.head? != some '.'

/-- What may be embedded in a struct: a type with a name, or a pointer to one. -/
def isEmbeddable : TypeExpr → Bool
  | .basic _ | .named _ _ | .pointer (.basic _) | .pointer (.named _ _) => true
  | _ => false

/-- The list ends with a slice. -/
def endsWithSlice (types : List TypeExpr) : Bool :=
  match types.getLast? with
  | some (.slice _) => true
  | _ => false

variable (primitives : String → Bool)

mutual

/-- The type is spelled as the language spells types. `primitives` tells the
identifiers that spell primitives from those that name types without package. -/
def WellSpelled : TypeExpr → Prop
  | .basic name => isName name ∧ primitives name
  | .named package name => isName name ∧ isPath package ∧ (package = "" → ¬ primitives name)
  | .pointer elem | .slice elem | .array _ elem | .chan _ elem => WellSpelled elem
  | .map key elem => WellSpelled key ∧ WellSpelled elem
  | .struct fields => WellSpelledFields fields
  | .func signature => WellSpelledSignature signature
  | .interface methods => WellSpelledMethods methods
  | .other _ => False

def WellSpelledSignature : SignatureExpr → Prop
  | ⟨_, params, results, variadic⟩ =>
    WellSpelledList params ∧ WellSpelledList results ∧ (variadic → endsWithSlice params)

def WellSpelledList : List TypeExpr → Prop
  | [] => True
  | first :: rest => WellSpelled first ∧ WellSpelledList rest

def WellSpelledFields : List FieldExpr → Prop
  | [] => True
  | ⟨name, embedded, _, type, _⟩ :: rest =>
    WellSpelled type ∧ (if embedded then isEmbeddable type else isName name) ∧
      WellSpelledFields rest

def WellSpelledMethods : List MethodExpr → Prop
  | [] => True
  | ⟨name, _, signature⟩ :: rest =>
    isName name ∧ WellSpelledSignature signature ∧ WellSpelledMethods rest

end

/-! ## Words -/

theorem isPathChar_of_isWordRest (h : isWordRest c = true) : isPathChar c = true := by
  simp [isPathChar, h]

theorem isWordRest_of_isWordStart (h : isWordStart c = true) : isWordRest c = true := by
  simp only [isWordStart, isWordRest, isWordChar, Bool.or_eq_true] at h ⊢
  rcases h with h | h
  · exact .inl (.inl h)
  · exact .inr h

/-- The characters of a name. -/
theorem isName_spec (h : isName name = true) :
    (∃ c rest, name.toList = c :: rest) ∧ (∀ c ∈ name.toList, isWordRest c = true) ∧
      name ∉ keywords := by
  unfold isName at h
  split at h
  · cases h
  · next c rest text =>
    simp only [Bool.and_eq_true, Bool.not_eq_true', List.all_eq_true] at h
    obtain ⟨⟨start, word⟩, plain⟩ := h
    refine ⟨⟨c, rest, text⟩, ?_, by simpa using plain⟩
    intro d mem
    rw [text] at mem
    rcases List.mem_cons.1 mem with rfl | mem
    · exact isWordRest_of_isWordStart start
    · exact word d mem

/-- A name is no keyword of a description. -/
theorem name_ne_keyword (h : isName name = true) (mem : keyword ∈ keywords) :
    name.toList ≠ keyword.toList := by
  intro eq
  have same : name = keyword := String.toList_injective eq
  exact (isName_spec h).2.2 (same ▸ mem)

/-- The text of a named type. -/
def qualified (package name : String) : List Char :=
  if package = "" then name.toList else package.toList ++ '.' :: name.toList

theorem describe_named (package name : String) :
    (TypeExpr.named package name).describe.toList = qualified package name := by
  rw [TypeExpr.describe, qualified]
  by_cases h : package = ""
  · simp [h]
  · simp [h]

/-- A qualified name is one word. -/
theorem isPathChar_qualified (hn : isName name = true) (hp : isPath package = true) :
    ∀ c ∈ qualified package name, isPathChar c = true := by
  obtain ⟨-, word, -⟩ := isName_spec hn
  simp only [isPath, Bool.and_eq_true, List.all_eq_true] at hp
  intro c mem
  unfold qualified at mem
  split at mem
  · exact isPathChar_of_isWordRest (word c mem)
  · rcases List.mem_append.1 mem with mem | mem
    · exact hp.1 c mem
    · rcases List.mem_cons.1 mem with rfl | mem
      · decide
      · exact isPathChar_of_isWordRest (word c mem)

theorem dot_not_mem_name (h : isName name = true) :
    ∀ c ∈ name.toList.reverse, (c != '.') = true := by
  intro c mem
  have word := (isName_spec h).2.1 c (List.mem_reverse.1 mem)
  refine bne_iff_ne.2 ?_
  rintro rfl
  exact absurd word (by decide)

/-- A qualified name is no keyword of a description. -/
theorem qualified_ne_keyword (hn : isName name = true) (mem : keyword ∈ keywords)
    (plain : '.' ∉ keyword.toList) : qualified package name ≠ keyword.toList := by
  unfold qualified
  split
  · exact name_ne_keyword hn mem
  · intro eq
    exact plain (eq ▸ List.mem_append_right _ List.mem_cons_self)

theorem qualified_ne_nil {package name : String} (hn : isName name = true) :
    ∃ c rest, qualified package name = c :: rest := by
  obtain ⟨⟨c, rest, text⟩, -, -⟩ := isName_spec hn
  unfold qualified
  split
  · exact ⟨c, rest, text⟩
  · cases package.toList with
    | nil => exact ⟨_, _, rfl⟩
    | cons d tail => exact ⟨_, _, rfl⟩

/-! ## How a type starts -/

/-- A type starts with a word, or with a mark of its own. -/
def isStart (c : Char) : Bool :=
  (isPathChar c && c != '.') || c == '*' || c == '[' || c == '<'

theorem isStart_of_isWordStart (h : isWordStart c = true) : isStart c = true := by
  have path := isPathChar_of_isWordRest (isWordRest_of_isWordStart h)
  have dot : c ≠ '.' := by
    rintro rfl
    exact absurd h (by decide)
  simp [isStart, path, dot]

theorem qualified_starts {package name : String} (hn : isName name = true)
    (hp : isPath package = true) :
    ∃ c rest, qualified package name = c :: rest ∧ isStart c = true := by
  unfold qualified
  split
  · unfold isName at hn
    split at hn
    · cases hn
    · next c rest text =>
      simp only [Bool.and_eq_true] at hn
      exact ⟨c, rest, text, isStart_of_isWordStart hn.1.1⟩
  · next nonempty =>
    cases text : package.toList with
    | nil => exact absurd (String.toList_eq_nil_iff.1 text) nonempty
    | cons c rest =>
      simp only [isPath, text, Bool.and_eq_true, List.all_cons, List.head?_cons, bne_iff_ne,
        ne_eq, Option.some.injEq] at hp
      refine ⟨c, _, rfl, ?_⟩
      simp [isStart, hp.1.1, hp.2]

/-- A well spelled type starts as a type does. -/
theorem describe_starts {type : TypeExpr} (h : WellSpelled primitives type) :
    ∃ c rest, type.describe.toList = c :: rest ∧ isStart c = true := by
  cases type with
  | basic name =>
    rw [WellSpelled] at h
    have starts := @qualified_starts "" name h.1 rfl
    simpa only [qualified, if_true, TypeExpr.describe] using starts
  | named package name =>
    rw [WellSpelled] at h
    rw [describe_named]
    exact qualified_starts h.1 h.2.1
  | pointer elem => exact ⟨'*', elem.describe.toList, by simp [TypeExpr.describe], rfl⟩
  | slice elem => exact ⟨'[', ']' :: elem.describe.toList, by simp [TypeExpr.describe], rfl⟩
  | array length elem => exact ⟨'[', _, by simp [TypeExpr.describe]; rfl, rfl⟩
  | chan direction elem =>
    cases direction with
    | both => exact ⟨'c', _, by simp [TypeExpr.describe, Direction.text]; rfl, by decide⟩
    | send => exact ⟨'c', _, by simp [TypeExpr.describe, Direction.text]; rfl, by decide⟩
    | receive => exact ⟨'<', _, by simp [TypeExpr.describe, Direction.text]; rfl, by decide⟩
  | map key elem => exact ⟨'m', _, by simp [TypeExpr.describe]; rfl, by decide⟩
  | struct fields => exact ⟨'s', _, by simp [TypeExpr.describe]; rfl, by decide⟩
  | func signature => exact ⟨'f', _, by simp [TypeExpr.describe]; rfl, by decide⟩
  | interface methods => exact ⟨'i', _, by simp [TypeExpr.describe]; rfl, by decide⟩
  | other description => rw [WellSpelled] at h; exact h.elim

/-- What a type starts with is none of the marks around it. -/
theorem isStart_ne {d : Char} (h : isStart c = true) (hd : isStart d = false) : c ≠ d := by
  rintro rfl
  rw [h] at hd
  cases hd

/-- A signature starts with a parenthesis. -/
theorem signature_starts (signature : SignatureExpr) :
    ∃ tail, signature.describe.toList = '(' :: tail := by
  obtain ⟨receiver, params, results, variadic⟩ := signature
  exact ⟨_, by simp [SignatureExpr.describe]; rfl⟩

theorem name_starts (h : isName name = true) :
    ∃ c tail, name.toList = c :: tail ∧ isStart c = true := by
  simpa only [qualified, if_true] using @qualified_starts "" name h rfl

theorem field_starts {field : FieldExpr} {others : List FieldExpr}
    (h : WellSpelledFields primitives (field :: others)) :
    ∃ c tail, field.describe.toList = c :: tail ∧ isStart c = true := by
  obtain ⟨name, embedded, tag, type, pos⟩ := field
  obtain ⟨ht, hn, -⟩ := h
  cases embedded with
  | true =>
    obtain ⟨c, tail, starts, start⟩ := describe_starts primitives ht
    exact ⟨c, _, by simp [FieldExpr.describe, starts]; rfl, start⟩
  | false =>
    obtain ⟨c, tail, starts, start⟩ := name_starts hn
    exact ⟨c, _, by simp [FieldExpr.describe, starts]; rfl, start⟩

theorem method_starts (h : WellSpelledMethods primitives (method :: others)) :
    ∃ c tail, method.describe.toList = c :: tail ∧ isStart c = true := by
  obtain ⟨name, pos, signature⟩ := method
  obtain ⟨c, tail, starts, start⟩ := name_starts h.1
  exact ⟨c, _, by simp [MethodExpr.describe, starts]; rfl, start⟩

theorem wellSpelledFields_tail {others : List FieldExpr}
    (h : WellSpelledFields primitives (field :: others)) : WellSpelledFields primitives others := by
  cases field
  exact h.2.2

theorem wellSpelledMethods_tail (h : WellSpelledMethods primitives (method :: others)) :
    WellSpelledMethods primitives others := by
  cases method
  exact h.2.2

end GoAtlas.Description
