import GoAtlas.Constraint.Header
import GoAtlas.Proofs.Constraint.Legacy
import GoAtlas.Proofs.Text.Lines

/-!
# What a header says

The header of a file is all above the first line that is neither blank nor a comment
(`header`). `Says` gives the meaning of a header without the procedure that reads it: the first
`//go:build` line decides, and without one all the `// +build` lines have to hold. The
constraint of a file is what its header says, and a text that goes on with a line of another
sort does not change it (`constraint_of_header`).
-/

namespace GoAtlas.Constraint

open Text

variable {constraint : Constraint} {before : List (List Char)} {words : List Token}
  {text : List Char}

/-! ## The header -/

/-- The line is blank or a comment. -/
def isHeaderLine (line : List Char) : Bool :=
  (trim line).isEmpty || startsWith "//" (trim line)

/-- The lines above the first one that is neither blank nor a comment, trimmed. -/
def headerOf (lines : List (List Char)) : List (List Char) :=
  (lines.takeWhile isHeaderLine).map trim

/-- The header of a text. -/
def header (text : String) : List (List Char) :=
  headerOf (lines text.toList)

/-- The header says its constraint in this line. -/
def isBuildLine (line : List Char) : Bool :=
  startsWith "//go:build" line

/-- What stands in the lines of the older spelling. -/
def legacyBodies (header : List (List Char)) : List String :=
  (header.filterMap (dropStart? "// +build")).map fun body => String.ofList (trim body)

/-- The line of the older spelling lists terms, and they list factors. -/
def IsLegacy (body : String) : Prop :=
  legacyTerms body ≠ [] ∧ ∀ factors ∈ legacyTerms body, ∀ text ∈ factors, IsFactor text

/-- On the line of the older spelling some term has all its factors satisfied. -/
def LegacyHolds (tags : NameSet) (body : String) : Prop :=
  ∃ factors ∈ legacyTerms body, ∀ text ∈ factors, holds tags text = true

/-- What a header says about the file. -/
inductive Says (header : List (List Char)) : Option (Except Malformed Constraint) → Prop
  /-- The first `//go:build` line decides. The blanks around its expression do not matter. -/
  | build {before after : List (List Char)} {expression : List Char}
      {answer : Except Malformed Constraint} :
      header = before ++ ("//go:build".toList ++ expression) :: after →
      (∀ line ∈ before, isBuildLine line = false) →
      answer = parse (String.ofList (trim expression)) →
      (∀ constraint, answer = .ok constraint ↔
        parse (String.ofList expression) = .ok constraint) →
      Says header (some answer)
  | nothing : (∀ line ∈ header, isBuildLine line = false) →
      (∀ line ∈ header, startsWith "// +build" line = false) → Says header none
  /-- The first line of the older spelling that is malformed is reported. -/
  | malformed {before after : List String} {body : String} {malformed : Malformed} :
      (∀ line ∈ header, isBuildLine line = false) →
      legacyBodies header = before ++ body :: after → (∀ other ∈ before, IsLegacy other) →
      ¬ IsLegacy body → parseLegacy body = .error malformed → Says header (some (.error malformed))
  /-- All lines of the older spelling have to hold. -/
  | legacy {constraint : Constraint} : (∀ line ∈ header, isBuildLine line = false) →
      legacyBodies header ≠ [] → (∀ body ∈ legacyBodies header, IsLegacy body) →
      (∀ tags, constraint.eval tags = true ↔
        ∀ body ∈ legacyBodies header, LegacyHolds tags body) →
      Says header (some (.ok constraint))

/-! ## Blanks around an expression -/

theorem Splits.of_blank {c : Char} {rest : List Char} (blank : isBlank c = true)
    (h : Splits (c :: rest) words) : Splits rest words := by
  have cut := tokens_eq_ok_iff.2 h
  rw [tokens, tokensFrom_blank blank] at cut
  obtain ⟨others, read, rfl⟩ := map_eq_ok.1 cut
  exact splits_of_tokensFrom (List.forall_mem_nil _) read

theorem splits_trimStart : Splits (trimStart text) words ↔ Splits text words := by
  induction text with
  | nil => rfl
  | cons c rest ih =>
    by_cases blank : isBlank c = true
    · rw [trimStart, List.dropWhile_cons_of_pos blank]
      exact ih.trans ⟨.blank blank, .of_blank blank⟩
    · rw [trimStart, List.dropWhile_cons_of_neg blank]

/-- An expression is read as the same constraint with the blanks before it. -/
theorem parse_trim (trimmed : trimEnd text = text) :
    parse (String.ofList (trim text)) = .ok constraint ↔
      parse (String.ofList text) = .ok constraint := by
  have whole : text.takeWhile isBlank ++ trimStart text = text := List.takeWhile_append_dropWhile
  have same : trim text = trimStart text := by
    rw [← whole] at trimmed
    exact trimEnd_of_append trimmed
  simp only [parse_eq_ok_iff, same, String.toList_ofList, splits_trimStart]

/-! ## The lines of a header -/

/-- Blank lines say nothing. -/
theorem headerLines_eq (text : String) :
    headerLines text.toList = (header text).filter fun line => !line.isEmpty := by
  rw [headerLines, header, headerOf]
  induction lines text.toList with
  | nil => rfl
  | cons line rest ih =>
    rw [List.map_cons, List.takeWhile_cons]
    by_cases empty : (trim line).isEmpty = true
    · have inHeader : isHeaderLine line = true := by simp [isHeaderLine, empty]
      rw [inHeader, if_pos rfl, List.map_cons, List.filter_cons_of_neg (by simp [empty]), ih,
        List.filter_cons_of_neg (by simp [empty])]
    · have same : isHeaderLine line = startsWith "//" (trim line) := by
        simp [isHeaderLine, eq_false_of_ne_true empty]
      rw [List.filter_cons_of_pos (by simpa using empty), List.takeWhile_cons, same]
      split
      · rw [ih, List.map_cons, List.filter_cons_of_pos (by simpa using empty)]
      · rfl

/-- A line is looked for among the lines that are not blank. -/
theorem filterMap_headerLines {start : String} (some : start.toList ≠ []) (text : String) :
    (headerLines text.toList).filterMap (dropStart? start) =
      (header text).filterMap (dropStart? start) := by
  have blank : dropStart? start [] = none := by
    apply Option.eq_none_iff_forall_ne_some.2
    intro rest found
    exact some (List.append_eq_nil_iff.1 (dropStart?_eq_some_iff.1 found).symm).1
  rw [headerLines_eq, List.filterMap_filter]
  congr 1
  funext line
  cases line with
  | nil => exact blank.symm
  | cons c rest => rfl

/-- The constraint of a file by the lines of its header. -/
theorem ofFile?_eq (text : String) :
    ofFile? text =
      match (header text).findSome? (dropStart? "//go:build") with
      | some expression => some (parse (String.ofList (trim expression)))
      | none =>
        match (legacyBodies (header text)).mapM parseLegacy with
        | .ok constraints => (joinAll .and constraints).map .ok
        | .error malformed => some (.error malformed) := by
  have build : (headerLines text.toList).findSome? (dropStart? "//go:build") =
      (header text).findSome? (dropStart? "//go:build") := by
    rw [← List.head?_filterMap, filterMap_headerLines (by decide), List.head?_filterMap]
  have legacy := filterMap_headerLines (by decide : "// +build".toList ≠ []) text
  rw [ofFile?, build, legacy, legacyBodies, List.mapM_map]
  rfl

/-! ## Lines of the older spelling -/

theorem exists_parseLegacy_iff {body : String} :
    (∃ constraint, parseLegacy body = .ok constraint) ↔ IsLegacy body := by
  simp only [parseLegacy_eq_ok_iff, Joins.exists_iff, exists_factorOf_iff]
  apply and_congr_right
  intro _
  apply forall₂_congr
  intro factors mem
  apply and_iff_right
  -- a term is never cut into no factors
  obtain ⟨term, -, rfl⟩ := List.mem_map.1 mem
  exact List.splitOn_ne_nil _ _

theorem eval_of_parseLegacy {body : String} (tags : NameSet)
    (read : parseLegacy body = .ok constraint) :
    constraint.eval tags = true ↔ LegacyHolds tags body :=
  (parseLegacy_eq_ok_iff.1 read).eval_or fun _ _ joins =>
    joins.eval_and fun _ _ => FactorOf.eval tags

/-- A list is read up to the first of its members that cannot be read. -/
theorem mapM_eq_error {α β ε : Type} {f : α → Except ε β} {xs : List α} {fault : ε}
    (failed : xs.mapM f = .error fault) :
    ∃ before x after, xs = before ++ x :: after ∧ (∀ y ∈ before, ∃ value, f y = .ok value) ∧
      f x = .error fault := by
  induction xs with
  | nil => cases failed
  | cons x xs ih =>
    rw [List.mapM_cons] at failed
    cases first : f x with
    | error other =>
      rw [first] at failed
      cases failed
      exact ⟨[], x, xs, rfl, List.forall_mem_nil _, first⟩
    | ok value =>
      rw [first] at failed
      cases rest : xs.mapM f with
      | ok values =>
        simp only [bind, Except.bind, rest] at failed
        cases failed
      | error other =>
        simp only [bind, Except.bind, rest] at failed
        cases failed
        obtain ⟨before, y, after, rfl, read, last⟩ := ih rest
        exact ⟨x :: before, y, after, rfl, List.forall_mem_cons.2 ⟨⟨value, first⟩, read⟩, last⟩

/-- Constraints joined with `&&` hold when each of the lines does. -/
theorem eval_joinAll {bodies : List String} {constraints : List Constraint}
    (read : List.Forall₂ (fun body constraint => parseLegacy body = .ok constraint) bodies
      constraints) (joined : joinAll .and constraints = some constraint) (tags : NameSet) :
    constraint.eval tags = true ↔ ∀ body ∈ bodies, LegacyHolds tags body := by
  cases constraints with
  | nil => cases joined
  | cons first rest =>
    cases joined
    have joins : Joins .and _ bodies (rest.foldl .and first) := ⟨first, rest, read, rfl⟩
    exact joins.eval_and fun _ _ => eval_of_parseLegacy tags

/-! ## What a header says -/

/-- Without a `//go:build` line the lines of the older spelling are read. -/
theorem says_legacy {header : List (List Char)}
    (plain : ∀ line ∈ header, isBuildLine line = false) :
    Says header
      (match (legacyBodies header).mapM parseLegacy with
      | .ok constraints => (joinAll .and constraints).map .ok
      | .error malformed => some (.error malformed)) := by
  cases parsed : (legacyBodies header).mapM parseLegacy with
  | error fault =>
    obtain ⟨before, body, after, parts, read, failed⟩ := mapM_eq_error parsed
    refine .malformed plain parts (fun other mem => exists_parseLegacy_iff.1 (read other mem)) ?_
      failed
    intro legacy
    obtain ⟨constraint, ok⟩ := exists_parseLegacy_iff.2 legacy
    rw [failed] at ok
    cases ok
  | ok constraints =>
    have read := mapM_eq_ok_iff.1 parsed
    have each : ∀ body ∈ legacyBodies header, IsLegacy body := by
      intro body mem
      obtain ⟨i, bound, rfl⟩ := List.getElem_of_mem mem
      exact exists_parseLegacy_iff.1 ⟨_, read.get bound (read.length_eq ▸ bound)⟩
    show Says header ((joinAll .and constraints).map .ok)
    cases joined : joinAll .and constraints with
    | some constraint =>
      refine .legacy plain ?_ each (eval_joinAll read joined)
      intro none
      rw [none] at read
      cases read
      cases joined
    | none =>
      cases constraints with
      | cons first rest => cases joined
      | nil =>
        refine .nothing plain fun line mem => ?_
        have none : legacyBodies header = [] := List.forall₂_nil_right_iff.1 read
        rw [legacyBodies, List.map_eq_nil_iff, List.filterMap_eq_nil_iff] at none
        exact dropStart?_eq_none_iff.1 (none line mem)

theorem says_header (text : String) : Says (header text) (ofFile? text) := by
  rw [ofFile?_eq]
  cases found : (header text).findSome? (dropStart? "//go:build") with
  | none =>
    apply says_legacy
    intro line mem
    exact dropStart?_eq_none_iff.1 (List.findSome?_eq_none_iff.1 found line mem)
  | some expression =>
    obtain ⟨before, line, after, parts, cut, plain⟩ := List.findSome?_eq_some_iff.1 found
    have whole := dropStart?_eq_some_iff.1 cut
    refine .build (whole ▸ parts) (fun other mem => dropStart?_eq_none_iff.1 (plain other mem))
      rfl ?_
    intro constraint
    apply parse_trim
    -- the line is trimmed, so its expression has no blanks at its end
    have mem : line ∈ header text := by simp [parts]
    obtain ⟨raw, -, rfl⟩ := List.mem_map.1 mem
    have trimmed := trimEnd_trim raw
    rw [whole] at trimmed
    exact trimEnd_of_append trimmed

/-! ## What comes after the header -/

theorem headerOf_append {top rest : List (List Char)}
    (code : ∀ line ∈ rest.head?, isHeaderLine line = false) :
    headerOf (top ++ rest) = headerOf top := by
  have none : rest.takeWhile isHeaderLine = [] := by
    cases rest with
    | nil => rfl
    | cons line rest => rw [List.takeWhile_cons, code line rfl, if_neg Bool.false_ne_true]
  rw [headerOf, headerOf]
  congr 1
  induction top with
  | nil => exact none
  | cons line top ih => rw [List.cons_append, List.takeWhile_cons, List.takeWhile_cons, ih]

/-- The constraint of a file is what its header says, and the text from the first line of
another sort on does not change it. -/
theorem constraint_of_header (text : String) :
    Says (header text) (ofFile? text) ∧
      ∀ rest : String, EndsLine text.toList →
        (∀ line ∈ (lines rest.toList).head?, isHeaderLine line = false) →
        ofFile? (text ++ rest) = ofFile? text := by
  refine ⟨says_header text, fun rest ends code => ?_⟩
  have same : header (text ++ rest) = header text := by
    rw [header, String.toList_append, lines_append ends, headerOf_append code, header]
  rw [ofFile?_eq, ofFile?_eq, same]

/-- Two lines of the older spelling between comments, with another constraint below the header. -/
theorem constraint_of_header_two_lines :
    let top := "// A file.\n\n// +build linux,!cgo darwin\n  // +build !386\n"
    let rest := "package p\n//go:build never\n"
    EndsLine top.toList ∧ ((lines rest.toList).head?.all fun line => !isHeaderLine line) = true ∧
      ofFile? (top ++ rest) = some (.ok (.and (.or (.and (.tag "linux") (.not (.tag "cgo")))
        (.tag "darwin")) (.not (.tag "386")))) := by
  intro top rest
  have ends : EndsLine top.toList := .inr (by decide +kernel)
  have code : ((lines rest.toList).head?.all fun line => !isHeaderLine line) = true := by
    decide +kernel
  have below : ∀ line ∈ (lines rest.toList).head?, isHeaderLine line = false := by
    intro line first
    rw [Option.mem_def.1 first] at code
    simpa using code
  refine ⟨ends, code, ((constraint_of_header top).2 rest ends below).trans ?_⟩
  decide +kernel

/-! ## Lines between those of a header -/

theorem headerOf_of_all (inHeader : ∀ line ∈ before, isHeaderLine line = true)
    (rest : List (List Char)) : headerOf (before ++ rest) = before.map trim ++ headerOf rest := by
  rw [headerOf, List.takeWhile_append_of_pos inHeader, List.map_append, headerOf]

/-- A comment that starts with neither of the two marks says nothing, wherever it stands in the
header. -/
theorem ofFile?_insert {text edited : String} {after : List (List Char)} {line : List Char}
    (original : lines text.toList = before ++ after)
    (inserted : lines edited.toList = before ++ line :: after)
    (inHeader : ∀ other ∈ before, isHeaderLine other = true)
    (comment : startsWith "//" (trim line) = true) (notBuild : isBuildLine (trim line) = false)
    (notLegacy : startsWith "// +build" (trim line) = false) : ofFile? edited = ofFile? text := by
  have here : isHeaderLine line = true := by simp [isHeaderLine, comment]
  have old : header text = before.map trim ++ headerOf after := by
    rw [header, original, headerOf_of_all inHeader]
  have new : header edited = before.map trim ++ trim line :: headerOf after := by
    rw [header, inserted, headerOf_of_all inHeader, headerOf, List.takeWhile_cons_of_pos here,
      List.map_cons, headerOf]
  have build : (header edited).findSome? (dropStart? "//go:build") =
      (header text).findSome? (dropStart? "//go:build") := by
    rw [new, old, List.findSome?_append, List.findSome?_append, List.findSome?_cons,
      dropStart?_eq_none_iff.2 notBuild]
  have legacy : legacyBodies (header edited) = legacyBodies (header text) := by
    rw [new, old, legacyBodies, legacyBodies, List.filterMap_append, List.filterMap_append,
      List.filterMap_cons_none (dropStart?_eq_none_iff.2 notLegacy)]
  rw [ofFile?_eq, ofFile?_eq, build, legacy]

end GoAtlas.Constraint
