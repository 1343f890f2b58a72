import GoAtlas.FilePath

/-!
# Positions

Only the line of a position matters: comments are found by the line they end on.
-/

namespace GoAtlas

/-- A line of a file. Lines count from one. -/
structure Position where
  file : FilePath
  line : Nat
deriving DecidableEq, Repr

end GoAtlas
