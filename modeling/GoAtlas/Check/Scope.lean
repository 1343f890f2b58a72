import GoAtlas.Checked
import GoAtlas.Source.Index
import GoAtlas.Source.Tree
import GoAtlas.TypeExpr.Description

/-!
# Scopes and complaints of a checker

While a package is checked, a name means what its file and its package say: the
file gives names to the imports, the package declares types. What is wrong is
collected as complaints, in the order it is met; checking goes on. One mark among
them is no complaint: it stands where checking would go on without end.
-/

namespace GoAtlas.Check

/-- The names a file gives to its imports. -/
structure FileScope where
  path : FilePath
  /-- Each name with the import as it is written. -/
  imports : Table String

/-- A type the package declares. Its tree is read in the scope of its file. -/
structure LocalType where
  tree : TypeTree
  isAlias : Bool
  file : FileScope

/-- What the names of a package mean. -/
structure Scope where
  package : String
  /-- The checked package an import leads to. -/
  imported? : String → Option Checked
  types : Table LocalType
  files : List FileScope

/-- Something that is wrong with a package. -/
inductive Complaint where
  | packageNames (first other package : String)
  | missingImport (file : FilePath) (literal : String)
  | redeclared (name : String)
  | undefined (file : FilePath) (name : String)
  | notInterface (file : FilePath) (type : String)
  | badReceiver (file : FilePath) (method : String) (receiver : TypeTree)
  /-- The mark of a way down that has no end. No message shows it. -/
  | unending

/-- The words for a complaint. -/
def Complaint.text : Complaint → String
  | .packageNames first other package =>
    "found packages " ++ first ++ " and " ++ other ++ " in " ++ package
  | .missingImport file literal => file.text ++ ": could not import " ++ literal
  | .redeclared name => name ++ " redeclared in this block"
  | .undefined file name => file.text ++ ": undefined: " ++ name
  | .notInterface file type => file.text ++ ": " ++ type ++ " is not an interface"
  | .badReceiver file method receiver =>
    file.text ++ ": cannot define method " ++ method ++ " on " ++ receiver.text
  | .unending => ""

/-- The mark of a way down that has no end. -/
def Complaint.isUnending : Complaint → Bool
  | .unending => true
  | _ => false

/-- A value with the complaints met on the way to it. -/
structure Reported (α : Type u) where
  value : α
  complaints : List Complaint := []

namespace Reported

instance : Monad Reported where
  pure value := { value }
  bind first next :=
    let second := next first.value
    { value := second.value, complaints := first.complaints ++ second.complaints }

/-- A complaint without a value. -/
def complain (complaint : Complaint) : Reported Unit :=
  { value := (), complaints := [complaint] }

/-- The way to the value has no end. -/
def unending (reported : Reported α) : Bool :=
  reported.complaints.any Complaint.isUnending

end Reported

/-- What stands for a type that could not be resolved. -/
def invalid : TypeExpr :=
  .other "invalid type"

/-- The predeclared type `error`. -/
def errorType : TypeExpr :=
  .named "" "error"

/-- The methods of `error`. -/
def errorMethods : List MethodExpr :=
  [⟨"Error", none, ⟨some errorType, [], [.basic "string"], false⟩⟩]

/-- `error` is an interface with one method. -/
def errorDefinition : Definition :=
  { name := "error", underlying := .interface errorMethods }

/-- The primitive types of the language. -/
def basicNames : List String :=
  ["bool", "string", "int", "int8", "int16", "int32", "int64", "uint", "uint8", "uint16",
    "uint32", "uint64", "uintptr", "byte", "rune", "float32", "float64", "complex64",
    "complex128"]

end GoAtlas.Check
