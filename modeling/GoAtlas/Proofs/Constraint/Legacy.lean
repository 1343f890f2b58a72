import GoAtlas.Proofs.Constraint.Grammar
import Mathlib.Data.List.Forall2

/-!
# The older spelling and the newer one

A line of the older spelling is a list of terms, and a term is a list of factors. It stands
for the same constraint as the expression that joins its terms with `||` and their factors
with `&&`. Both levels of a line are read in one way, so they share one relation (`Joins`):
the parts stand for constraints one by one, and these are joined from the left.
-/

namespace GoAtlas.Constraint

open Text

variable {text : List Char} {constraint : Constraint} {words : List Token}

/-! ## Reading the parts of a line -/

/-- The constraint that a factor stands for. -/
inductive FactorOf : List Char → Constraint → Prop
  | tag {name : List Char} : isTag name = true → FactorOf name (.tag (String.ofList name))
  | negated {name : List Char} : isTag name = true →
      FactorOf ('!' :: name) (.not (.tag (String.ofList name)))

/-- A factor is a tag, with at most one `!` before it. -/
def IsFactor (text : List Char) : Prop :=
  isTag text = true ∨ ∃ name, text = '!' :: name ∧ isTag name = true

/-- The parts stand for constraints, which are joined from the left. -/
def Joins {α : Type} (connective : Constraint → Constraint → Constraint)
    (reads : α → Constraint → Prop) (parts : List α) (constraint : Constraint) : Prop :=
  ∃ first rest, List.Forall₂ reads parts (first :: rest) ∧
    rest.foldl connective first = constraint

/-- The factors of the terms of a line. -/
def legacyTerms (body : String) : List (List (List Char)) :=
  (Text.words body.toList).map fun term => term.splitOn ','

/-- A tag does not begin with `!`. -/
theorem isTag_bang (name : List Char) : isTag ('!' :: name) = false := by
  have bang : isTagChar '!' = false := by decide
  simp [isTag, bang]

theorem exists_factorOf_iff : (∃ constraint, FactorOf text constraint) ↔ IsFactor text := by
  constructor
  · rintro ⟨constraint, stands⟩
    cases stands with
    | tag tag => exact .inl tag
    | @negated name tag => exact .inr ⟨name, rfl, tag⟩
  · rintro (tag | ⟨name, rfl, tag⟩)
    · exact ⟨_, .tag tag⟩
    · exact ⟨_, .negated tag⟩

theorem factor_eq_ok_iff : factor text = .ok constraint ↔ FactorOf text constraint := by
  constructor
  · intro read
    unfold factor at read
    split at read
    · next name cut =>
      have whole : '!' :: name = text := List.isPrefixOf?_eq_some_iff_append_eq.1 cut
      split at read
      · next tag =>
        cases read
        exact whole ▸ .negated tag
      · cases read
    · split at read
      · next tag =>
        cases read
        exact .tag tag
      · cases read
  · intro stands
    cases stands with
    | @negated name tag =>
      have cut : dropStart? "!" ('!' :: name) = some name := rfl
      simp [factor, cut, tag]
    | tag tag =>
      have plain : dropStart? "!" text = none := by
        apply Option.eq_none_iff_forall_ne_some.2
        intro name cut
        have whole : '!' :: name = text := List.isPrefixOf?_eq_some_iff_append_eq.1 cut
        rw [← whole, isTag_bang] at tag
        cases tag
      simp [factor, plain, tag]

/-- A list is read when its members are read one by one. -/
theorem mapM_eq_ok_iff {α β ε : Type} {f : α → Except ε β} {xs : List α} {ys : List β} :
    xs.mapM f = .ok ys ↔ List.Forall₂ (fun x y => f x = .ok y) xs ys := by
  induction xs generalizing ys with
  | nil =>
    rw [List.mapM_nil, List.forall₂_nil_left_iff]
    constructor
    · intro read
      cases read
      rfl
    · rintro rfl
      rfl
  | cons x xs ih =>
    rw [List.mapM_cons, bind_eq_ok, List.forall₂_cons_left_iff]
    constructor
    · rintro ⟨y, first, read⟩
      obtain ⟨rest, others, done⟩ := bind_eq_ok.1 read
      cases done
      exact ⟨y, rest, first, ih.1 others, rfl⟩
    · rintro ⟨y, rest, first, others, rfl⟩
      refine ⟨y, first, bind_eq_ok.2 ⟨rest, ih.2 others, rfl⟩⟩

/-- A term is read as the constraints of its factors, joined with `&&`. -/
theorem term_eq_ok_iff {result : Option Constraint} :
    term text = .ok result ↔
      ∃ constraint, result = some constraint ∧
        Joins .and FactorOf (text.splitOn ',') constraint := by
  rw [term, map_eq_ok]
  simp only [mapM_eq_ok_iff, factor_eq_ok_iff]
  constructor
  · rintro ⟨constraints, read, rfl⟩
    cases constraints with
    | nil =>
      -- a text is never cut into no pieces
      exact absurd (List.forall₂_nil_right_iff.1 read) (List.splitOn_ne_nil _ _)
    | cons first rest => exact ⟨_, rfl, first, rest, read, rfl⟩
  · rintro ⟨constraint, rfl, first, rest, read, rfl⟩
    exact ⟨first :: rest, read, rfl⟩

/-- Every term that was read stands for a constraint. -/
theorem constraints_of_terms {texts : List (List Char)} {results : List (Option Constraint)}
    (read : List.Forall₂ (fun text result => term text = .ok result) texts results) :
    ∃ constraints, results = constraints.map some ∧
      List.Forall₂ (fun text => Joins .and FactorOf (text.splitOn ',')) texts constraints := by
  induction read with
  | nil => exact ⟨[], rfl, .nil⟩
  | cons first _ ih =>
    obtain ⟨constraint, rfl, joins⟩ := term_eq_ok_iff.1 first
    obtain ⟨constraints, rfl, stand⟩ := ih
    exact ⟨constraint :: constraints, rfl, .cons joins stand⟩

/-- A line is read as the constraints of its terms, joined with `||`. -/
theorem parseLegacy_eq_ok_iff {body : String} :
    parseLegacy body = .ok constraint ↔
      Joins .or (Joins .and FactorOf) (legacyTerms body) constraint := by
  have line : parseLegacy body = .ok constraint ↔ terms body.toList = .ok constraint := by
    unfold parseLegacy
    cases terms body.toList with
    | error fault => simp
    | ok other => simp
  rw [line, terms, bind_eq_ok]
  simp only [mapM_eq_ok_iff, legacyTerms]
  constructor
  · rintro ⟨results, read, joined⟩
    obtain ⟨constraints, rfl, stand⟩ := constraints_of_terms read
    have all : (constraints.map some).filterMap id = constraints := by
      simp [List.filterMap_map]
    rw [all] at joined
    cases constraints with
    | nil => cases joined
    | cons first rest =>
      cases joined
      exact ⟨first, rest, List.forall₂_map_left_iff.2 stand, rfl⟩
  · rintro ⟨first, rest, stand, rfl⟩
    refine ⟨(first :: rest).map some, ?_, ?_⟩
    · apply List.forall₂_map_right_iff.2
      apply (List.forall₂_map_left_iff.1 stand).imp
      intro text constraint joins
      exact term_eq_ok_iff.2 ⟨constraint, rfl, joins⟩
    · simp [List.filterMap_map, joinAll]

theorem eval_foldl_and (tags : NameSet) (first : Constraint) (rest : List Constraint) :
    (rest.foldl .and first).eval tags = (first :: rest).all (eval tags) := by
  induction rest generalizing first with
  | nil => simp
  | cons next rest ih => simp [ih, eval, Bool.and_assoc]

theorem eval_foldl_or (tags : NameSet) (first : Constraint) (rest : List Constraint) :
    (rest.foldl .or first).eval tags = (first :: rest).any (eval tags) := by
  induction rest generalizing first with
  | nil => simp
  | cons next rest ih => simp [ih, eval, Bool.or_assoc]

namespace Joins

variable {α : Type} {connective : Constraint → Constraint → Constraint}
  {reads : α → Constraint → Prop} {parts : List α} {constraint : Constraint}
variable {holds : α → Prop}

/-- A list can be joined when it is not empty and each of its parts stands for something. -/
theorem exists_iff : (∃ constraint, Joins connective reads parts constraint) ↔
    parts ≠ [] ∧ ∀ part ∈ parts, ∃ constraint, reads part constraint := by
  constructor
  · rintro ⟨constraint, first, rest, stand, -⟩
    constructor
    · rintro rfl
      cases stand
    · intro part mem
      obtain ⟨i, bound, rfl⟩ := List.getElem_of_mem mem
      exact ⟨_, stand.get bound (stand.length_eq ▸ bound)⟩
  · rintro ⟨some, all⟩
    obtain ⟨part, others, rfl⟩ := List.exists_cons_of_ne_nil some
    obtain ⟨first, here⟩ := all part List.mem_cons_self
    have : Nonempty Constraint := ⟨first⟩
    choose! reading stands using fun other mem => all other (List.mem_cons_of_mem part mem)
    have rest := List.forall₂_map_right_iff.2 (List.forall₂_same.2 stands)
    exact ⟨_, first, others.map reading, .cons here rest, rfl⟩

variable {tags : NameSet}
  (each : ∀ part constraint, reads part constraint → (constraint.eval tags = true ↔ holds part))

include each

/-- Constraints joined with `&&` hold when each of the parts does. -/
theorem eval_and (joins : Joins .and reads parts constraint) :
    constraint.eval tags = true ↔ ∀ part ∈ parts, holds part := by
  obtain ⟨first, rest, stand, rfl⟩ := joins
  rw [eval_foldl_and]
  generalize first :: rest = constraints at stand
  induction stand with
  | nil => simp
  | cons here _ ih =>
    rw [List.all_cons, Bool.and_eq_true, List.forall_mem_cons, ih, each _ _ here]

/-- Constraints joined with `||` hold when one of the parts does. -/
theorem eval_or (joins : Joins .or reads parts constraint) :
    constraint.eval tags = true ↔ ∃ part ∈ parts, holds part := by
  obtain ⟨first, rest, stand, rfl⟩ := joins
  rw [eval_foldl_or]
  generalize first :: rest = constraints at stand
  induction stand with
  | nil => simp
  | cons here _ ih =>
    rw [List.any_cons, Bool.or_eq_true, ih, each _ _ here]
    simp

end Joins

/-! ## The expression of a line -/

/-- The parts in order, with a separator between any two. -/
theorem intercalate_cons (separator first : List Char) (rest : List (List Char)) :
    separator.intercalate (first :: rest) = first ++ (rest.map (separator ++ ·)).flatten := by
  induction rest generalizing first with
  | nil => simp
  | cons next rest ih => rw [List.intercalate_cons_cons, ih, List.map_cons, List.flatten_cons,
      List.append_assoc, List.append_assoc]

theorem Written.blanks {blanks : List Char} (blank : ∀ c ∈ blanks, isBlank c = true)
    (h : Written words text) : Written words (blanks ++ text) := by
  cases h with
  | nil others =>
    apply Written.nil
    intro c mem
    exact (List.mem_append.1 mem).elim (blank c) (others c)
  | @cons before text word words others written =>
    rw [List.append_assoc, ← List.append_assoc, ← List.append_assoc]
    refine .cons ?_ written
    intro c mem
    exact (List.mem_append.1 mem).elim (blank c) (others c)

theorem Written.append {more : List Token} {rest : List Char} (h : Written words text)
    (h' : Written more rest) : Written (words ++ more) (text ++ rest) := by
  induction h with
  | nil blank => exact h'.blanks blank
  | cons blank _ ih =>
    rw [List.append_assoc]
    exact .cons blank ih

/-- The text is the constraint, written without further parentheses. -/
structure Spells (text : List Char) (constraint : Constraint) : Prop where
  written : Written constraint.words text
  tags : ∀ name ∈ constraint.tags, isTag name.toList = true

/-- Joining constraints of two sorts puts the operator between their words, and nothing else. -/
structure Joint (operator : Token) (connective : Constraint → Constraint → Constraint)
    (onLeft onRight : Constraint → Prop) : Prop where
  words : ∀ left right, onLeft left → onRight right →
    (connective left right).words = left.words ++ operator :: right.words
  tags : ∀ left right, (connective left right).tags = left.tags ++ right.tags
  start : ∀ constraint, onRight constraint → onLeft constraint
  joined : ∀ left right, onLeft (connective left right)

theorem joint_and : Joint .and .and (·.isOr = false) (·.isJoined = false) where
  words left right onLeft onRight := by
    simp [words, onLeft, onRight, parenthesized]
  tags left right := rfl
  start constraint single := by
    cases constraint with
    | or left right => cases single
    | _ => rfl
  joined left right := rfl

theorem joint_or : Joint .or .or (fun _ => True) (·.isOr = false) where
  words left right _ onRight := by
    simp [words, onRight, parenthesized]
  tags left right := rfl
  start _ _ := trivial
  joined _ _ := trivial

namespace Joint

variable {operator : Token} {connective : Constraint → Constraint → Constraint}
  {onLeft onRight : Constraint → Prop} {text more : List Char} {left right : Constraint}

section

variable (joint : Joint operator connective onLeft onRight)

include joint

/-- The operator between two texts spells what it joins. -/
theorem spells (first : Spells text left) (second : Spells more right) (before : onLeft left)
    (after : onRight right) :
    Spells (text ++ ([' '] ++ operator.chars ++ [' '] ++ more)) (connective left right) where
  written := by
    have space : ∀ c ∈ [' '], isBlank c = true := List.forall_mem_singleton.2 rfl
    rw [joint.words left right before after, List.append_assoc ([' '] ++ operator.chars)]
    exact first.written.append (.cons space (second.written.blanks space))
  tags name mem := by
    rw [joint.tags, List.mem_append] at mem
    exact mem.elim (first.tags name) (second.tags name)

/-- The texts of the parts, with the operator between any two, spell what the parts are
joined to. The parts before the next one are joined already. -/
theorem spells_foldl {texts : List (List Char)} {constraints : List Constraint}
    (parts : List.Forall₂ (fun text constraint => Spells text constraint ∧ onRight constraint)
      texts constraints) (first : Spells text left) (before : onLeft left) :
    Spells (text ++ (texts.map ([' '] ++ operator.chars ++ [' '] ++ ·)).flatten)
        (constraints.foldl connective left) ∧
      onLeft (constraints.foldl connective left) := by
  induction parts generalizing text left with
  | nil => simpa using ⟨first, before⟩
  | cons here _ ih =>
    have next := joint.spells first here.1 before here.2
    rw [List.map_cons, List.flatten_cons, ← List.append_assoc, List.foldl_cons]
    exact ih next (joint.joined _ _)

theorem spells_joins {α : Type} {reads : α → Constraint → Prop} {parts : List α}
    {constraint : Constraint} (spelling : α → List Char)
    (each : ∀ part constraint, reads part constraint →
      Spells (spelling part) constraint ∧ onRight constraint)
    (joins : Joins connective reads parts constraint) :
    Spells (([' '] ++ operator.chars ++ [' ']).intercalate (parts.map spelling)) constraint ∧
      onLeft constraint := by
  obtain ⟨first, rest, stand, rfl⟩ := joins
  cases stand with
  | cons here others =>
    rw [List.map_cons, intercalate_cons]
    refine joint.spells_foldl ?_ (each _ _ here).1 (joint.start _ (each _ _ here).2)
    exact List.forall₂_map_left_iff.2 (others.imp each)

end

end Joint

theorem FactorOf.spells (h : FactorOf text constraint) :
    Spells text constraint ∧ constraint.isJoined = false := by
  have none : ∀ c ∈ ([] : List Char), isBlank c = true := by simp
  have alone (name : List Char) : Written [.tag (String.ofList name)] name := by
    have written : Written [.tag (String.ofList name)] ([] ++ (String.ofList name).toList ++ []) :=
      .cons none (.nil none)
    simpa using written
  cases h with
  | tag tag =>
    refine ⟨⟨alone text, ?_⟩, rfl⟩
    simpa [tags] using tag
  | @negated name tag =>
    refine ⟨⟨.cons none (alone name), ?_⟩, rfl⟩
    simpa [tags] using tag

/-- The terms of a line joined with `||`, and the factors of a term with `&&`. -/
def modern (body : String) : String :=
  String.ofList (" || ".toList.intercalate
    ((legacyTerms body).map fun factors => " && ".toList.intercalate factors))

/-- The expression of a line is read as the constraint of the line. -/
theorem parse_modern {body : String}
    (line : Joins .or (Joins .and FactorOf) (legacyTerms body) constraint) :
    parse (modern body) = .ok constraint := by
  have term (factors : List (List Char)) (constraint : Constraint)
      (joins : Joins .and FactorOf factors constraint) :
      Spells (" && ".toList.intercalate factors) constraint ∧ constraint.isOr = false := by
    have spells := joint_and.spells_joins id (fun _ _ => FactorOf.spells) joins
    rw [List.map_id] at spells
    exact spells
  have whole := (joint_or.spells_joins _ term line).1
  apply parse_of_written whole.tags
  rw [modern, String.toList_ofList]
  exact whole.written

/-! ## What a line means -/

/-- The factor holds: its tag is there, or is not if a `!` stands before it. -/
def holds (tags : NameSet) : List Char → Bool
  | '!' :: name => !tags.contains (String.ofList name)
  | name => tags.contains (String.ofList name)

theorem FactorOf.eval (tags : NameSet) (h : FactorOf text constraint) :
    constraint.eval tags = true ↔ holds tags text = true := by
  cases h with
  | negated _ => rfl
  | tag tag =>
    unfold holds
    split
    · next name =>
      rw [isTag_bang] at tag
      cases tag
    · rfl

/-- The two spellings agree. A line of the older one is read if and only if it has a term and
all it lists are factors; the expression with the terms joined by `||` and the factors by
`&&` is then read as the same constraint; and that holds when all factors of some term do. -/
theorem spellings_agree (body : String) :
    ((∃ constraint, parseLegacy body = .ok constraint) ↔
      legacyTerms body ≠ [] ∧ ∀ factors ∈ legacyTerms body, ∀ text ∈ factors, IsFactor text) ∧
    ∀ constraint, parseLegacy body = .ok constraint →
      parse (modern body) = .ok constraint ∧
        ∀ tags, constraint.eval tags = true ↔
          ∃ factors ∈ legacyTerms body, ∀ text ∈ factors, holds tags text = true := by
  simp only [parseLegacy_eq_ok_iff]
  constructor
  · rw [Joins.exists_iff]
    apply and_congr_right
    intro _
    apply forall₂_congr
    intro factors mem
    rw [Joins.exists_iff]
    simp only [exists_factorOf_iff]
    apply and_iff_right
    -- a term is never cut into no factors
    obtain ⟨text, -, rfl⟩ := List.mem_map.1 mem
    exact List.splitOn_ne_nil _ _
  · intro constraint line
    refine ⟨parse_modern line, ?_⟩
    intro tags
    apply line.eval_or
    intro factors term joins
    exact joins.eval_and fun _ _ => FactorOf.eval tags

/-- Two terms, one of them with two factors, between blanks of several sorts. -/
theorem spellings_agree_two_terms :
    let body := " linux,!cgo\t  darwin "
    let constraint := or (and (tag "linux") (not (tag "cgo"))) (tag "darwin")
    modern body = "linux && !cgo || darwin" ∧ parseLegacy body = .ok constraint ∧
      parse (modern body) = .ok constraint := by
  intro body constraint
  have read : parseLegacy body = .ok constraint := by decide +kernel
  exact ⟨by decide +kernel, read, ((spellings_agree body).2 constraint read).1⟩

end GoAtlas.Constraint
