import GoAtlas.Table
import GoAtlas.Text.Quoted

/-!
# Build constraints

A build constraint is a boolean expression over tags. A file is part of a
package when its constraint holds under the tags of the run.
-/

namespace GoAtlas

/-- The platform that the process runs on, as its own compiler calls it. -/
structure Platform where
  os : String := "linux"
  arch : String := "x86_64"
  isUnix : Bool := true
deriving DecidableEq, Repr

/-- A boolean expression over tags. -/
inductive Constraint where
  | tag (name : String)
  | not (inner : Constraint)
  | and (left right : Constraint)
  | or (left right : Constraint)
deriving DecidableEq, Repr

namespace Constraint

/-- A tag holds when it is among the tags of the run. -/
def eval (tags : NameSet) : Constraint → Bool
  | .tag name => tags.contains name
  | .not inner => !inner.eval tags
  | .and left right => left.eval tags && right.eval tags
  | .or left right => left.eval tags || right.eval tags

/-- The tags that hold on every run: the platform, in the words of Go, and the toolchain. -/
def defaultTags (platform : Platform) : NameSet :=
  let os := if platform.os = "macos" then "darwin" else platform.os
  let arch := ([("x86_64", "amd64"), ("aarch64", "arm64"), ("x86", "386")].lookup
    platform.arch).getD platform.arch
  .ofNames ([os, arch, "gc"] ++ if platform.isUnix then ["unix"] else [])

/-- A word of a constraint expression. -/
inductive Token where
  | lparen
  | rparen
  | not
  | and
  | or
  | tag (name : String)
deriving DecidableEq, Repr

/-- A word as messages show it. -/
def Token.text : Token → String
  | .lparen => "LParen"
  | .rparen => "RParen"
  | .not => "Not"
  | .and => "And"
  | .or => "Or"
  | .tag name => "Ident(" ++ Text.quoted name ++ ")"

/-- Why an expression is no constraint. Offsets count bytes of the expression. -/
inductive Fault where
  /-- A `&` or `|` that is not doubled. -/
  | halfOperator (c : Char) (offset : Nat)
  | strangeChar (c : Char) (offset : Nat)
  | unclosed
  | unexpected (token : Token)
  | unexpectedEnd
  | invalidTag
  | empty
deriving DecidableEq, Repr

/-- The words for a fault. -/
def Fault.text : Fault → String
  | .halfOperator c offset =>
    "expected " ++ String.ofList [c, c] ++ " at offset " ++ toString offset
  | .strangeChar c offset =>
    "unexpected character " ++ Text.quotedChar c ++ " at offset " ++ toString offset
  | .unclosed => "missing )"
  | .unexpected token => "unexpected token " ++ token.text
  | .unexpectedEnd => "unexpected end of expression"
  | .invalidTag => "invalid tag"
  | .empty => "empty constraint"

/-- An expression that is no constraint, with the reason. -/
structure Malformed where
  line : String
  fault : Fault
deriving DecidableEq, Repr

/-- The message for an expression and a reason. -/
def malformedMessage (line reason : String) : String :=
  "Malformed build constraint " ++ Text.quoted line ++ ": " ++ reason

def Malformed.message (malformed : Malformed) : String :=
  malformedMessage malformed.line malformed.fault.text

end Constraint

end GoAtlas
