import GoAtlas.TypeExpr
import GoAtlas.Text.Quoted

/-!
# Descriptions of types

A type is described in the notation of its language, with package paths as
qualifiers: `map[string]*example.com/p.T`. The description is the identity of an
anonymous type: two expressions with one description share a node.
-/

namespace GoAtlas

/-- The notation before the element of a channel. -/
def Direction.text : Direction → String
  | .both => "chan "
  | .send => "chan<- "
  | .receive => "<-chan "

mutual

/-- The description of a type. -/
def TypeExpr.describe : TypeExpr → String
  | .basic name => name
  | .named package name => if package.isEmpty then name else package ++ "." ++ name
  | .pointer elem => "*" ++ elem.describe
  | .slice elem => "[]" ++ elem.describe
  | .array length elem => "[" ++ toString length.toNat ++ "]" ++ elem.describe
  | .chan direction elem => direction.text ++ elem.describe
  | .map key elem => "map[" ++ key.describe ++ "]" ++ elem.describe
  | .struct fields => "struct\x7b" ++ describeFields fields ++ "\x7d"
  | .func signature => "func" ++ signature.describe
  | .interface methods => "interface\x7b" ++ describeMethods methods ++ "\x7d"
  | .other description => description

/-- Parameters and results, without the word before them. A single result that
is a function is put in parentheses. -/
def SignatureExpr.describe : SignatureExpr → String
  | ⟨_, params, results, variadic⟩ =>
    "(" ++ describeList variadic params ++ ")" ++ describeResults results

def describeResults : List TypeExpr → String
  | [] => ""
  | [.func signature] => " (func" ++ signature.describe ++ ")"
  | [single] => " " ++ single.describe
  | first :: rest => " (" ++ first.describe ++ ", " ++ describeList false rest ++ ")"

/-- Types between commas. In a variadic list a slice at the end is written as
the rest of the arguments. -/
def describeList (variadic : Bool) : List TypeExpr → String
  | [] => ""
  | [.slice elem] => (if variadic then "..." else "[]") ++ elem.describe
  | [single] => single.describe
  | first :: rest => first.describe ++ ", " ++ describeList variadic rest

def FieldExpr.describe : FieldExpr → String
  | ⟨name, embedded, tag, type, _⟩ =>
    (if embedded then "" else name ++ " ") ++ type.describe ++
      (if tag.isEmpty then "" else " " ++ Text.quoted tag)

def describeFields : List FieldExpr → String
  | [] => ""
  | [single] => single.describe
  | first :: rest => first.describe ++ "; " ++ describeFields rest

def MethodExpr.describe : MethodExpr → String
  | ⟨name, _, signature⟩ => name ++ signature.describe

def describeMethods : List MethodExpr → String
  | [] => ""
  | [single] => single.describe
  | first :: rest => first.describe ++ "; " ++ describeMethods rest

end

/-- The name of a type's node: its own when it has one, otherwise its
description among the bare names. -/
def TypeExpr.canonicalName : TypeExpr → Name
  | .named package name => { package, name }
  | .basic name => .bare name
  | type => .bare type.describe

end GoAtlas
