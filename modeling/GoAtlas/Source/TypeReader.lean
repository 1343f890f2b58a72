import GoAtlas.Source.Token
import GoAtlas.Source.Tree

/-!
# Reading types from tokens

A reader takes what it recognizes from the front of a list of tokens and leaves
the rest. The result says that the rest is shorter, which is why reading ends.
The members of a struct or an interface carry the line that is being read.
-/

namespace GoAtlas.Source

/-- What was read, and the tokens after it: fewer than `limit`. -/
structure Taken (α : Type) (limit : Nat) where
  value : α
  rest : List Token
  fewer : rest.length < limit

/-- What may have been read, and the tokens after it: at most `limit`. -/
structure Kept (α : Type) (limit : Nat) where
  value : α
  rest : List Token
  most : rest.length ≤ limit

/-- A given mark. -/
def expect (sign : Mark) (toks : List Token) : Except Fault (Taken Unit toks.length) :=
  match toks with
  | .mark found :: rest =>
    if found = sign then .ok ⟨(), rest, Nat.lt_succ_self _⟩
    else .error (.expectedMark sign (some (.mark found)))
  | found => .error (.expectedMark sign found.head?)

/-- Any word. -/
def expectWord (toks : List Token) : Except Fault (Taken String toks.length) :=
  match toks with
  | .word text :: rest => .ok ⟨text, rest, Nat.lt_succ_self _⟩
  | found => .error (.expectedWord found.head?)

/-- Nothing is left. -/
def finished : List Token → Except Fault Unit
  | [] => .ok ()
  | token :: _ => .error (.trailing token)

/-- The words that start a type of their own. -/
def isTypeWord (word : String) : Bool :=
  ["map", "chan", "func", "struct", "interface"].contains word

/-- A type may start here. -/
def startsType : List Token → Bool
  | .word _ :: _ => true
  | .mark .star :: _ | .mark .lbracket :: _ | .mark .lparen :: _ | .mark .arrow :: _ => true
  | _ => false

/-- An embedded field may end here. -/
def endsField : List Token → Bool
  | [] | .mark .semicolon :: _ | .mark .rbrace :: _ | .literal _ :: _ => true
  | _ => false

/-- The tag of a field, empty when there is none. -/
def takeTag (toks : List Token) : Kept String toks.length :=
  match toks with
  | .literal tag :: rest => ⟨tag, rest, Nat.le_succ _⟩
  | toks => ⟨"", toks, Nat.le_refl _⟩

/-- The name of a parameter: a word with a type after it. -/
def takeName (toks : List Token) : Kept (Option String) toks.length :=
  match toks with
  | .word name :: .mark .dot :: rest => ⟨none, .word name :: .mark .dot :: rest, Nat.le_refl _⟩
  | .word name :: .mark .comma :: rest =>
    ⟨none, .word name :: .mark .comma :: rest, Nat.le_refl _⟩
  | .word name :: .mark .rparen :: rest =>
    ⟨none, .word name :: .mark .rparen :: rest, Nat.le_refl _⟩
  | .word name :: next :: rest =>
    if isTypeWord name then ⟨none, .word name :: next :: rest, Nat.le_refl _⟩
    else ⟨some name, next :: rest, Nat.le_succ _⟩
  | toks => ⟨none, toks, Nat.le_refl _⟩

/-- The dots before the type of a variadic parameter. -/
def takeDots (toks : List Token) : Kept Bool toks.length :=
  match toks with
  | .mark .ellipsis :: rest => ⟨true, rest, Nat.le_succ _⟩
  | toks => ⟨false, toks, Nat.le_refl _⟩

/-- More names, each after a comma. -/
def takeNames (toks : List Token) : Except Fault (Kept (List String) toks.length) :=
  match toks with
  | .mark .comma :: .word name :: rest => do
    let ⟨names, rest, most⟩ ← takeNames rest
    return ⟨name :: names, rest, Nat.le_succ_of_le (Nat.le_succ_of_le most)⟩
  | .mark .comma :: found => .error (.expectedWord found.head?)
  | toks => .ok ⟨[], toks, Nat.le_refl _⟩

/-- An entry of a parameter list. -/
structure ParamEntry where
  name : Option String
  type : TypeTree
  /-- The type stands after dots. -/
  dots : Bool

/-- A variadic parameter is a slice. -/
def ParamEntry.fullType (entry : ParamEntry) : TypeTree :=
  if entry.dots then .slice entry.type else entry.type

/-- The types of the entries, with `pending` names that wait for a type. Where
some entry has a name, an entry without one is a name that shares the next type.
The list is variadic when its last type stands after dots. -/
def paramTypes (someNamed : Bool) (pending : Nat) (variadic : Bool) :
    List ParamEntry → Except Fault (List TypeTree × Bool)
  | [] => if pending = 0 then .ok ([], variadic) else .error .missingParamType
  | entry :: rest =>
    if someNamed && entry.name.isNone then paramTypes someNamed (pending + 1) variadic rest
    else do
      let (types, variadic) ← paramTypes someNamed 0 entry.dots rest
      return (List.replicate (pending + 1) entry.fullType ++ types, variadic)

/-- The types of a parameter list, and whether it is variadic. -/
def paramList (entries : List ParamEntry) : Except Fault (List TypeTree × Bool) :=
  paramTypes (entries.any fun entry => entry.name.isSome) 0 false entries

/-- The name of the type an embedded field refers to. -/
def baseName : TypeTree → String
  | .ident name | .qualified _ name => name
  | .pointer elem => baseName elem
  | _ => ""

mutual

/-- A type. -/
def readType (line : Nat) (toks : List Token) : Except Fault (Taken TypeTree toks.length) :=
  match toks with
  | .mark .star :: rest => do
    let ⟨elem, rest, _⟩ ← readType line rest
    return ⟨.pointer elem, rest, by simp only [List.length_cons]; omega⟩
  | .mark .lbracket :: .mark .rbracket :: rest => do
    let ⟨elem, rest, _⟩ ← readType line rest
    return ⟨.slice elem, rest, by simp only [List.length_cons]; omega⟩
  | .mark .lbracket :: .int length :: rest => do
    let ⟨_, rest, _⟩ ← expect .rbracket rest
    let ⟨elem, rest, _⟩ ← readType line rest
    return ⟨.array length elem, rest, by simp only [List.length_cons]; omega⟩
  | .mark .lbracket :: found => .error (.expectedLength found.head?)
  | .mark .lparen :: rest => do
    let ⟨inner, rest, _⟩ ← readType line rest
    let ⟨_, rest, _⟩ ← expect .rparen rest
    return ⟨inner, rest, by simp only [List.length_cons]; omega⟩
  | .mark .arrow :: rest => do
    let ⟨word, rest, _⟩ ← expectWord rest
    if word = "chan" then
      let ⟨elem, rest, _⟩ ← readType line rest
      return ⟨.chan .receive elem, rest, by simp only [List.length_cons]; omega⟩
    else .error (.expectedChan word)
  | .word "map" :: rest => do
    let ⟨_, rest, _⟩ ← expect .lbracket rest
    let ⟨key, rest, _⟩ ← readType line rest
    let ⟨_, rest, _⟩ ← expect .rbracket rest
    let ⟨elem, rest, _⟩ ← readType line rest
    return ⟨.map key elem, rest, by simp only [List.length_cons]; omega⟩
  | .word "chan" :: .mark .arrow :: rest => do
    let ⟨elem, rest, _⟩ ← readType line rest
    return ⟨.chan .send elem, rest, by simp only [List.length_cons]; omega⟩
  | .word "chan" :: rest => do
    let ⟨elem, rest, _⟩ ← readType line rest
    return ⟨.chan .both elem, rest, by simp only [List.length_cons]; omega⟩
  | .word "func" :: rest => do
    let ⟨signature, rest, _⟩ ← readSignature line rest
    return ⟨.func signature, rest, by simp only [List.length_cons]; omega⟩
  | .word "struct" :: rest => do
    let ⟨_, rest, _⟩ ← expect .lbrace rest
    let ⟨fields, rest, _⟩ ← readFields line rest
    return ⟨.struct fields, rest, by simp only [List.length_cons]; omega⟩
  | .word "interface" :: rest => do
    let ⟨_, rest, _⟩ ← expect .lbrace rest
    let ⟨elements, rest, _⟩ ← readElements line rest
    return ⟨.interface elements, rest, by simp only [List.length_cons]; omega⟩
  | .word package :: .mark .dot :: rest => do
    let ⟨name, rest, _⟩ ← expectWord rest
    return ⟨.qualified package name, rest, by simp only [List.length_cons]; omega⟩
  | .word name :: rest => .ok ⟨.ident name, rest, Nat.lt_succ_self _⟩
  | found => .error (.expectedType found.head?)
termination_by 2 * toks.length

/-- Parameters and results. A single result needs no parentheses. -/
def readSignature (line : Nat) (toks : List Token) :
    Except Fault (Taken SignatureTree toks.length) := do
  let ⟨_, rest, _⟩ ← expect .lparen toks
  let ⟨entries, rest, fewer⟩ ← readParams line rest
  let (params, variadic) ← paramList entries
  match rest, fewer with
  | .mark .lparen :: rest, _ =>
    have : rest.length < toks.length := by simp only [List.length_cons] at *; omega
    let ⟨entries, rest, _⟩ ← readParams line rest
    let (results, _) ← paramList entries
    return ⟨{ params, results, variadic }, rest, by simp only [List.length_cons] at *; omega⟩
  | rest, _ =>
    if startsType rest then
      let ⟨result, rest, _⟩ ← readType line rest
      return ⟨{ params, results := [result], variadic }, rest, by omega⟩
    else return ⟨{ params, results := [], variadic }, rest, by omega⟩
termination_by 2 * toks.length

/-- The entries of a parameter list and its closing parenthesis. -/
def readParams (line : Nat) (toks : List Token) :
    Except Fault (Taken (List ParamEntry) toks.length) :=
  match toks with
  | .mark .rparen :: rest => .ok ⟨[], rest, Nat.lt_succ_self _⟩
  | toks => do
    let ⟨name, rest, _⟩ := takeName toks
    let ⟨dots, rest, _⟩ := takeDots rest
    let ⟨type, rest, fewer⟩ ← readType line rest
    match rest, fewer with
    | .mark .comma :: rest, _ =>
      have : rest.length < toks.length := by simp only [List.length_cons] at *; omega
      let ⟨entries, rest, _⟩ ← readParams line rest
      return ⟨{ name, type, dots } :: entries, rest, by simp only [List.length_cons] at *; omega⟩
    | .mark .rparen :: rest, _ =>
      return ⟨[{ name, type, dots }], rest, by simp only [List.length_cons] at *; omega⟩
    | found, _ => .error (.expectedParamEnd found.head?)
termination_by 2 * toks.length + 1

/-- One or more fields with a common type and tag, or an embedded field. -/
def readField (line : Nat) (toks : List Token) :
    Except Fault (Taken (List FieldTree) toks.length) :=
  match toks with
  | .mark .star :: rest => do
    let ⟨elem, rest, _⟩ ← readType line rest
    let ⟨tag, rest, _⟩ := takeTag rest
    let field : FieldTree :=
      { name := baseName elem, embedded := true, tag, type := .pointer elem, line }
    return ⟨[field], rest, by simp only [List.length_cons] at *; omega⟩
  | .word package :: .mark .dot :: rest => do
    let ⟨name, rest, _⟩ ← expectWord rest
    let ⟨tag, rest, _⟩ := takeTag rest
    let field : FieldTree :=
      { name, embedded := true, tag, type := .qualified package name, line }
    return ⟨[field], rest, by simp only [List.length_cons] at *; omega⟩
  | .word first :: rest =>
    if endsField rest then
      let ⟨tag, rest, _⟩ := takeTag rest
      let field : FieldTree := { name := first, embedded := true, tag, type := .ident first, line }
      .ok ⟨[field], rest, by simp only [List.length_cons] at *; omega⟩
    else do
      let ⟨names, rest, _⟩ ← takeNames rest
      let ⟨type, rest, _⟩ ← readType line rest
      let ⟨tag, rest, _⟩ := takeTag rest
      let field (name : String) : FieldTree := { name, embedded := false, tag, type, line }
      return ⟨(first :: names).map field, rest, by simp only [List.length_cons] at *; omega⟩
  | found => .error (.expectedWord found.head?)
termination_by 2 * toks.length

/-- The fields of a struct and its closing brace. -/
def readFields (line : Nat) (toks : List Token) :
    Except Fault (Taken (List FieldTree) toks.length) :=
  match toks with
  | [] => .error .unterminatedStruct
  | .mark .rbrace :: rest => .ok ⟨[], rest, Nat.lt_succ_self _⟩
  | .mark .semicolon :: rest => do
    let ⟨fields, rest, _⟩ ← readFields line rest
    return ⟨fields, rest, by simp only [List.length_cons]; omega⟩
  | toks => do
    let ⟨fields, rest, _⟩ ← readField line toks
    let ⟨more, rest, _⟩ ← readFields line rest
    return ⟨fields ++ more, rest, by omega⟩
termination_by 2 * toks.length + 1

/-- A method or an embedded interface. -/
def readElement (line : Nat) (toks : List Token) :
    Except Fault (Taken ElementTree toks.length) :=
  match toks with
  | .word name :: .mark .lparen :: rest => do
    let ⟨signature, rest, _⟩ ← readSignature line (.mark .lparen :: rest)
    return ⟨.method name signature line, rest, by simp only [List.length_cons] at *; omega⟩
  | .word package :: .mark .dot :: rest => do
    let ⟨name, rest, _⟩ ← expectWord rest
    return ⟨.embedded (.qualified package name), rest, by simp only [List.length_cons]; omega⟩
  | .word name :: rest => .ok ⟨.embedded (.ident name), rest, Nat.lt_succ_self _⟩
  | found => .error (.expectedWord found.head?)
termination_by 2 * toks.length

/-- The elements of an interface and its closing brace. -/
def readElements (line : Nat) (toks : List Token) :
    Except Fault (Taken (List ElementTree) toks.length) :=
  match toks with
  | [] => .error .unterminatedInterface
  | .mark .rbrace :: rest => .ok ⟨[], rest, Nat.lt_succ_self _⟩
  | .mark .semicolon :: rest => do
    let ⟨elements, rest, _⟩ ← readElements line rest
    return ⟨elements, rest, by simp only [List.length_cons]; omega⟩
  | toks => do
    let ⟨element, rest, _⟩ ← readElement line toks
    let ⟨more, rest, _⟩ ← readElements line rest
    return ⟨element :: more, rest, by omega⟩
termination_by 2 * toks.length + 1

end

/-- The type a text spells. -/
def typeOf (line : Nat) (text : List Char) : Except Fault TypeTree := do
  let ⟨type, rest, _⟩ ← readType line (← tokens text)
  finished rest
  return type

/-- The fields a line of a struct body spells. -/
def fieldsOf (line : Nat) (text : List Char) : Except Fault (List FieldTree) := do
  let ⟨fields, rest, _⟩ ← readField line (← tokens text)
  finished rest
  return fields

/-- The element a line of an interface body spells. -/
def elementOf (line : Nat) (text : List Char) : Except Fault ElementTree := do
  let ⟨element, rest, _⟩ ← readElement line (← tokens text)
  finished rest
  return element

/-- A receiver in parentheses, with or without a name. -/
def readReceiver (line : Nat) (toks : List Token) :
    Except Fault (Option TypeTree × List Token) :=
  match toks with
  | .mark .lparen :: rest => do
    let ⟨type, rest, _⟩ ← readType line (afterReceiverName rest)
    let ⟨_, rest, _⟩ ← expect .rparen rest
    return (some type, rest)
  | toks => .ok (none, toks)
where
  /-- A word is the name of the receiver unless it is its type. -/
  afterReceiverName : List Token → List Token
    | .word name :: .mark .rparen :: rest => .word name :: .mark .rparen :: rest
    | .word name :: .mark .dot :: rest => .word name :: .mark .dot :: rest
    | .word _ :: rest => rest
    | toks => toks

/-- The receiver, the name and the signature of a function. -/
def funcOf (line : Nat) (text : List Char) :
    Except Fault (Option TypeTree × String × SignatureTree) := do
  let (receiver, rest) ← readReceiver line (← tokens text)
  let ⟨name, rest, _⟩ ← expectWord rest
  let ⟨signature, rest, _⟩ ← readSignature line rest
  finished rest
  return (receiver, name, signature)

end GoAtlas.Source
