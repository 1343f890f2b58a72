import GoAtlas.Text.Lines
import Mathlib.Data.List.DropRight

/-!
# Lines and blanks

A text that is made of whole lines has these lines, whatever text comes after it
(`lines_append`), so lines that are written one after the other are read back
(`lines_textOf`). A trimmed text has no blank at either end (`visible_of_trim`).
-/

namespace GoAtlas.Text

variable {text : List Char}

/-! ## Blanks at the ends -/

theorem trimEnd_append_visible {c : Char} (text rest : List Char) (visible : isBlank c = false) :
    trimEnd (text ++ c :: rest) = text ++ c :: trimEnd rest := by
  have tail : (c :: rest).reverse = rest.reverse ++ [c] := List.reverse_cons
  rw [trimEnd, trimEnd, List.reverse_append, tail, List.append_assoc, List.dropWhile_append]
  split
  · next all =>
    rw [List.isEmpty_iff] at all
    simp [all, visible]
  · simp

/-- A text that ends a text without blanks at its end has none at its own. -/
theorem trimEnd_of_append {start final : List Char}
    (whole : trimEnd (start ++ final) = start ++ final) : trimEnd final = final := by
  obtain rfl | ⟨init, c, rfl⟩ := List.eq_nil_or_concat' final
  · rfl
  · rw [trimEnd, List.reverse_append, List.reverse_concat, List.cons_append] at whole
    rw [trimEnd, List.reverse_concat]
    by_cases blank : isBlank c = true
    · rw [List.dropWhile_cons_of_pos blank] at whole
      -- without its last character the text is shorter
      have shorter :=
        (List.dropWhile_sublist isBlank (l := init.reverse ++ start.reverse)).length_le
      have length := congrArg List.length whole
      simp only [List.length_reverse, List.length_append, List.length_singleton] at shorter length
      omega
    · rw [List.dropWhile_cons_of_neg blank, List.reverse_cons, List.reverse_reverse]

theorem trimEnd_trimEnd (line : List Char) : trimEnd (trimEnd line) = trimEnd line := by
  rw [trimEnd, trimEnd, List.reverse_reverse, List.dropWhile_idempotent]

theorem trimEnd_trim (line : List Char) : trimEnd (trim line) = trim line :=
  trimEnd_trimEnd _

theorem trimStart_of_trim (trimmed : trim text = text) : trimStart text = text := by
  have shorter := (List.dropWhile_sublist isBlank (l := (trimStart text).reverse)).length_le
  have length := congrArg List.length trimmed
  rw [trim, trimEnd, List.length_reverse] at length
  rw [List.length_reverse] at shorter
  exact (List.dropWhile_sublist isBlank).eq_of_length_le (length ▸ shorter)

/-- The first and the last character of a trimmed text are not blank. -/
theorem visible_of_trim (trimmed : trim text = text) (some : text ≠ []) :
    ∃ c d, text.head? = Option.some c ∧ text.getLast? = Option.some d ∧ isBlank c = false ∧
      isBlank d = false := by
  have start := trimStart_of_trim trimmed
  have final : trimEnd text = text := by
    rw [← trimmed]
    exact trimEnd_trim text
  obtain ⟨c, rest, whole⟩ := List.exists_cons_of_ne_nil some
  obtain empty | ⟨init, d, other⟩ := List.eq_nil_or_concat' text
  · exact absurd empty some
  refine ⟨c, d, by rw [whole]; rfl, by rw [other, List.getLast?_concat], ?_, ?_⟩
  · rw [whole, trimStart] at start
    exact eq_false_of_ne_true (List.dropWhile_eq_self_iff.1 start (Nat.succ_pos _))
  · rw [other, trimEnd, List.reverse_concat, List.reverse_eq_iff, List.reverse_concat] at final
    exact eq_false_of_ne_true (List.dropWhile_eq_self_iff.1 final (Nat.succ_pos _))

/-! ## Starts -/

theorem dropStart?_eq_some_iff {start : String} {line rest : List Char} :
    dropStart? start line = some rest ↔ line = start.toList ++ rest :=
  List.isPrefixOf?_eq_some_iff_append_eq.trans eq_comm

theorem dropStart?_eq_none_iff {start : String} {line : List Char} :
    dropStart? start line = none ↔ startsWith start line = false := by
  rw [← Bool.not_eq_true, startsWith, List.isPrefixOf_iff_prefix, Option.eq_none_iff_forall_ne_some]
  constructor
  · rintro none ⟨rest, rfl⟩
    exact none rest (dropStart?_eq_some_iff.2 rfl)
  · rintro other rest found
    exact other ⟨rest, (dropStart?_eq_some_iff.1 found).symm⟩

/-! ## Lines -/

/-- The text is made of whole lines. -/
def EndsLine (text : List Char) : Prop :=
  text = [] ∨ text.getLast? = some '\n'

theorem lines_append {top rest : List Char} (ends : EndsLine top) :
    lines (top ++ rest) = lines top ++ lines rest := by
  obtain rfl | last := ends
  · rfl
  · obtain ⟨start, rfl⟩ := List.getLast?_eq_some_iff.1 last
    have some : rest.splitOn '\n' ≠ [] := List.splitOn_ne_nil _ _
    have pieces : (start ++ ['\n']).splitOn '\n' = start.splitOn '\n' ++ [[]] := by
      rw [List.splitOn_append_cons_self, List.splitOn_nil]
    rw [lines, lines, lines, List.append_assoc, List.singleton_append,
      List.splitOn_append_cons_self, pieces, List.dropLast_append_of_ne_nil some,
      List.getLast?_append_of_ne_nil _ some]
    simp

/-- The lines one after the other, as a text. -/
def textOf (lines : List (List Char)) : String :=
  String.ofList (lines.flatMap fun line => line ++ ['\n'])

theorem lines_single {line : List Char} (single : '\n' ∉ line) (final : line.getLast? ≠ some '\r') :
    lines (line ++ ['\n']) = [line] := by
  have pieces : (line ++ ['\n']).splitOn '\n' = [line, []] := by
    rw [List.splitOn_append_cons_self_of_not_mem single, List.splitOn_nil]
  rw [lines, pieces]
  simp [dropReturn, final]

/-- Lines that are written one after the other are read back. -/
theorem lines_textOf {all : List (List Char)}
    (each : ∀ line ∈ all, '\n' ∉ line ∧ line.getLast? ≠ some '\r') :
    lines (textOf all).toList = all := by
  rw [textOf, String.toList_ofList]
  induction all with
  | nil => rfl
  | cons line all ih =>
    obtain ⟨⟨single, final⟩, others⟩ := List.forall_mem_cons.1 each
    rw [List.flatMap_cons, lines_append (.inr List.getLast?_concat), lines_single single final,
      ih others, List.singleton_append]

end GoAtlas.Text
