/-!
# Ranges of code points

A property of characters that no formula describes is given as a table. A short
one lists ranges: pairs of a first and a last code point, in increasing order.
A long one lists the lengths of the runs of code points that lack the property
and have it, by turns.
-/

namespace GoAtlas.Text

/-- Some range of the table holds the code point. -/
def inRanges (ranges : List (Nat × Nat)) (code : Nat) : Bool :=
  ranges.any fun range => range.1 ≤ code && code ≤ range.2

theorem inRanges_eq_true_iff {ranges : List (Nat × Nat)} {code : Nat} :
    inRanges ranges code = true ↔ ∃ range ∈ ranges, range.1 ≤ code ∧ code ≤ range.2 := by
  simp [inRanges]

/-- The run with the code point is one that has the property, where `held` says
whether the first run has it. What follows the last run lacks it. -/
def inRuns (held : Bool) : List Nat → Nat → Bool
  | [], _ => false
  | run :: runs, code => if code < run then held else inRuns (!held) runs (code - run)

end GoAtlas.Text
