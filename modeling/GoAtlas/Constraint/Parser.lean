import GoAtlas.Constraint.Token

/-!
# Reading a constraint expression

An expression is a sentence of the grammar

    E = T { || T }      T = U { && U }      U = ! U | ( E ) | tag

and both connectives group to the left. The reader takes one word at a time and
keeps what stands to the left of the operand it waits for, once for every open
parenthesis.
-/

namespace GoAtlas.Constraint

/-- What stands to the left of an operand within its parentheses. -/
structure Pending where
  /-- The left side of a `||`. -/
  alternatives : Option Constraint := none
  /-- The left side of a `&&`. -/
  factors : Option Constraint := none
  /-- The number of `!` right before the operand. -/
  negations : Nat := 0
deriving DecidableEq, Repr

/-- Where the reader stands. -/
inductive Reading where
  /-- An operand is due. -/
  | operand (outer : List Pending) (here : Pending)
  /-- A term was read, after the alternatives before it. -/
  | operator (outer : List Pending) (alternatives : Option Constraint) (term : Constraint)
deriving DecidableEq, Repr

/-- The constraint under a number of `!`. -/
def negate (constraint : Constraint) : Nat → Constraint
  | 0 => constraint
  | n + 1 => .not (negate constraint n)

/-- Two sides joined by a connective, where the left one may be absent. -/
def joined (connective : Constraint → Constraint → Constraint) (left : Option Constraint)
    (right : Constraint) : Constraint :=
  match left with
  | some left => connective left right
  | none => right

namespace Reading

/-- An operand takes its place. -/
def supply (outer : List Pending) (here : Pending) (operand : Constraint) : Reading :=
  .operator outer here.alternatives (joined .and here.factors (negate operand here.negations))

/-- One word is read. -/
def step : Reading → Token → Except Fault Reading
  | .operand outer here, .not => .ok (.operand outer { here with negations := here.negations + 1 })
  | .operand outer here, .lparen => .ok (.operand (here :: outer) {})
  | .operand outer here, .tag name => .ok (supply outer here (.tag name))
  | .operand _ _, token => .error (.unexpected token)
  | .operator outer alternatives term, .and =>
    .ok (.operand outer { alternatives, factors := some term })
  | .operator outer alternatives term, .or =>
    .ok (.operand outer { alternatives := some (joined .or alternatives term) })
  | .operator (here :: outer) alternatives term, .rparen =>
    .ok (supply outer here (joined .or alternatives term))
  | .operator [] _ _, token => .error (.unexpected token)
  | .operator (_ :: _) _ _, _ => .error .unclosed

/-- The words are over. -/
def finish : Reading → Except Fault Constraint
  | .operand _ _ => .error .unexpectedEnd
  | .operator [] alternatives term => .ok (joined .or alternatives term)
  | .operator (_ :: _) _ _ => .error .unclosed

end Reading

/-- The constraint a list of words spells. -/
def ofTokens (words : List Token) : Except Fault Constraint := do
  let reading ← words.foldlM Reading.step (.operand [] {})
  reading.finish

/-- The constraint an expression spells. -/
def parse (expression : String) : Except Malformed Constraint :=
  match tokens expression.toList >>= ofTokens with
  | .ok constraint => .ok constraint
  | .error fault => .error { line := expression, fault }

end GoAtlas.Constraint
