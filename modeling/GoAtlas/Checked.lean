import GoAtlas.TypeExpr
import GoAtlas.Table

/-!
# Checked packages

What a checker reports of a package: its top-level declarations in source order
and the definitions of its named types.
-/

namespace GoAtlas

/-- What a top-level name stands for. -/
inductive Declared where
  | type (type : TypeExpr)
  | func (signature : SignatureExpr)
  | var (type : TypeExpr)
  | const (type : TypeExpr)

/-- A top-level declaration. -/
structure Declaration where
  name : String
  pos : Option Position
  declared : Declared

/-- A package as a checker reports it. -/
structure Checked where
  path : String
  /-- The name in the package clause. -/
  name : String
  declarations : List Declaration := []
  definitions : Table Definition := ∅
  /-- Remarks that do not stand in the way. -/
  diagnostics : List String := []

/-- The declarations in name order; those of one name keep their order. -/
def Checked.sorted (checked : Checked) : List Declaration :=
  checked.declarations.mergeSort fun a b => decide (a.name ≤ b.name)

/-- Why a check failed. -/
inductive CheckFault where
  /-- The checker does not know the package. -/
  | unknownPackage (path : String)
  /-- The package has errors; what was resolved in spite of them may be given. -/
  | errors (message : String) (resolved : Option Checked)
  /-- The checker does not come to an end, and neither does the run that asked it. -/
  | unending

/-- What was resolved in spite of the errors. -/
def CheckFault.resolved? : CheckFault → Option Checked
  | .unknownPackage _ => none
  | .errors _ resolved => resolved
  | .unending => none

def CheckFault.message : CheckFault → String
  | .unknownPackage path => "Package not found: " ++ path
  | .errors message _ => message
  | .unending => ""

end GoAtlas
