import GoAtlas.Text.Blank
import GoAtlas.Text.Lines
import GoAtlas.Text.Numeral
import GoAtlas.Text.Quoted

/-!
# Tokens of a source line

Types are read from tokens: words, numbers, string literals and marks. Blanks
only separate tokens. The mark `...` wins over `.`, and `<` is a mark only as the
start of `<-`.
-/

namespace GoAtlas.Source

open Text

/-- A mark of punctuation. -/
inductive Mark where
  | ellipsis
  | arrow
  | star
  | lbracket
  | rbracket
  | lparen
  | rparen
  | lbrace
  | rbrace
  | comma
  | semicolon
  | dot
  | assign
deriving DecidableEq, Repr

/-- A mark as it is written. -/
def Mark.text : Mark → String
  | .ellipsis => "..."
  | .arrow => "<-"
  | .star => "*"
  | .lbracket => "["
  | .rbracket => "]"
  | .lparen => "("
  | .rparen => ")"
  | .lbrace => "\x7b"
  | .rbrace => "\x7d"
  | .comma => ","
  | .semicolon => ";"
  | .dot => "."
  | .assign => "="

/-- A token of a line. -/
inductive Token where
  | word (text : String)
  | int (value : UInt64)
  | literal (text : String)
  | mark (mark : Mark)
deriving DecidableEq, Repr

/-- A token as messages show it. -/
def Token.text : Token → String
  | .word text => "Ident(" ++ quoted text ++ ")"
  | .int value => "Int(" ++ toString value.toNat ++ ")"
  | .literal text => "Str(" ++ quoted text ++ ")"
  | .mark sign => "Punct(" ++ quoted sign.text ++ ")"

/-- A token that may be missing, as messages show it. -/
def Token.foundText : Option Token → String
  | some token => "Some(" ++ token.text ++ ")"
  | none => "None"

/-- Why a piece of source cannot be read. -/
inductive Fault where
  | numberTooLarge (digits : String)
  | unterminatedRaw
  | unterminatedLiteral
  | strangeChar (c : Char)
  | expectedMark (mark : Mark) (found : Option Token)
  | expectedWord (found : Option Token)
  | expectedLength (found : Option Token)
  | expectedChan (found : String)
  | expectedType (found : Option Token)
  | expectedParamEnd (found : Option Token)
  | missingParamType
  | unterminatedStruct
  | unterminatedInterface
  | trailing (token : Token)
  | expectedPackage
  | unexpectedKeyword (keyword : String)
  | unterminatedImports
  | badImport (spec : String)
  | badTypeDeclaration (text : String)
  | unsupportedHeader (header : String)
  | unterminatedType (line : Nat)
  | unterminatedMember (line : Nat)
  | unterminatedFunc (line : Nat)
  | varWithoutType (text : String)
  | constWithoutValue (text : String)
deriving DecidableEq, Repr

/-- The words for a fault. -/
def Fault.text : Fault → String
  | .numberTooLarge digits =>
    "bad number " ++ digits ++ ": number too large to fit in target type"
  | .unterminatedRaw => "unterminated raw string"
  | .unterminatedLiteral => "unterminated string"
  | .strangeChar c => "unexpected character " ++ quotedChar c
  | .expectedMark mark found =>
    "expected " ++ quoted mark.text ++ ", found " ++ Token.foundText found
  | .expectedWord found => "expected identifier, found " ++ Token.foundText found
  | .expectedLength found => "expected array length, found " ++ Token.foundText found
  | .expectedChan found => "expected chan, found " ++ found
  | .expectedType found => "expected type, found " ++ Token.foundText found
  | .expectedParamEnd found =>
    "expected , or ) in parameters, found " ++ Token.foundText found
  | .missingParamType => "missing parameter type"
  | .unterminatedStruct => "unterminated struct"
  | .unterminatedInterface => "unterminated interface"
  | .trailing token => "unexpected " ++ token.text
  | .expectedPackage => "expected package clause"
  | .unexpectedKeyword keyword => "unexpected " ++ quoted keyword
  | .unterminatedImports => "unterminated import block"
  | .badImport spec => "bad import " ++ quoted spec
  | .badTypeDeclaration text => "bad type declaration " ++ quoted text
  | .unsupportedHeader header => "unsupported multi-line type " ++ quoted header
  | .unterminatedType line => "unterminated body of type at line " ++ toString line
  | .unterminatedMember line => "unterminated member at line " ++ toString line
  | .unterminatedFunc line => "unterminated body of func at line " ++ toString line
  | .varWithoutType text => "var " ++ text ++ " has no type"
  | .constWithoutValue text => "const " ++ text ++ " has no value"

/-- Words start with a letter or `_`. -/
def isWordStart (c : Char) : Bool :=
  isLetter c || c == '_'

/-- Words go on with letters, numerals and `_`. -/
def isWordRest (c : Char) : Bool :=
  isWordChar c || c == '_'

/-- The value of a run of digits. -/
def digitsValue (digits : List Char) : Nat :=
  digits.foldl (fun value digit => value * 10 + (digit.toNat - '0'.toNat)) 0

/-- The number a run of digits spells, when it fits 64 bits. -/
def number (digits : List Char) : Except Fault UInt64 :=
  if digitsValue digits < UInt64.size then .ok (.ofNat (digitsValue digits))
  else .error (.numberTooLarge (String.ofList digits))

/-- The text of a string literal up to the closing quote, and what follows it. A
backslash stands for the character after it. -/
def literalRest : List Char → Option (List Char × List Char)
  | [] => none
  | '"' :: rest => some ([], rest)
  | ['\\'] => none
  | '\\' :: c :: rest => (literalRest rest).map fun (text, rest) => (c :: text, rest)
  | c :: rest => (literalRest rest).map fun (text, rest) => (c :: text, rest)

/-- The mark a text starts with, and what follows it. -/
def markRest : List Char → Option (Mark × List Char)
  | '.' :: '.' :: '.' :: rest => some (.ellipsis, rest)
  | '<' :: '-' :: rest => some (.arrow, rest)
  | '*' :: rest => some (.star, rest)
  | '[' :: rest => some (.lbracket, rest)
  | ']' :: rest => some (.rbracket, rest)
  | '(' :: rest => some (.lparen, rest)
  | ')' :: rest => some (.rparen, rest)
  | '\x7b' :: rest => some (.lbrace, rest)
  | '\x7d' :: rest => some (.rbrace, rest)
  | ',' :: rest => some (.comma, rest)
  | ';' :: rest => some (.semicolon, rest)
  | '.' :: rest => some (.dot, rest)
  | '=' :: rest => some (.assign, rest)
  | _ => none

theorem length_dropWhile_le (p : Char → Bool) (text : List Char) :
    (text.dropWhile p).length ≤ text.length :=
  (List.dropWhile_sublist p).length_le

theorem length_splitFirst {separator : Char} {text before after : List Char}
    (h : splitFirst separator text = some (before, after)) : after.length < text.length := by
  induction text generalizing before with
  | nil => simp [splitFirst] at h
  | cons c rest ih =>
    simp only [splitFirst] at h
    split at h
    · cases h
      simp
    · obtain ⟨⟨b, a⟩, hb, he⟩ := Option.map_eq_some_iff.1 h
      cases he
      exact Nat.lt_succ_of_lt (ih hb)

theorem length_literalRest {text value rest : List Char}
    (h : literalRest text = some (value, rest)) : rest.length < text.length := by
  fun_induction literalRest text generalizing value with
  | case1 => simp at h
  | case2 => cases h; simp
  | case3 => simp at h
  | case4 c tail ih =>
    obtain ⟨⟨v, r⟩, hv, he⟩ := Option.map_eq_some_iff.1 h
    cases he
    exact Nat.lt_succ_of_lt (Nat.lt_succ_of_lt (ih hv))
  | case5 c tail _ _ _ ih =>
    obtain ⟨⟨v, r⟩, hv, he⟩ := Option.map_eq_some_iff.1 h
    cases he
    exact Nat.lt_succ_of_lt (ih hv)

theorem length_markRest {text rest : List Char} {mark : Mark}
    (h : markRest text = some (mark, rest)) : rest.length < text.length := by
  unfold markRest at h
  -- a mark takes at least one character
  split at h <;> cases h <;> (simp only [List.length_cons]; omega)

/-- The first token of a text that starts with `c`, and what follows it. -/
def firstToken (c : Char) (rest : List Char) : Except Fault (Token × List Char) :=
  if isWordStart c then
    .ok (.word (String.ofList (c :: rest.takeWhile isWordRest)), rest.dropWhile isWordRest)
  else if c.isDigit then do
    let value ← number (c :: rest.takeWhile Char.isDigit)
    return (.int value, rest.dropWhile Char.isDigit)
  else if c = '\x60' then
    match splitFirst '\x60' rest with
    | some (text, rest) => .ok (.literal (String.ofList text), rest)
    | none => .error .unterminatedRaw
  else if c = '"' then
    match literalRest rest with
    | some (text, rest) => .ok (.literal (String.ofList text), rest)
    | none => .error .unterminatedLiteral
  else
    match markRest (c :: rest) with
    | some (mark, rest) => .ok (.mark mark, rest)
    | none => .error (.strangeChar c)

theorem length_firstToken {c : Char} {text rest : List Char} {token : Token}
    (h : firstToken c text = .ok (token, rest)) : rest.length ≤ text.length := by
  unfold firstToken at h
  split at h
  · cases h
    exact length_dropWhile_le _ _
  · split at h
    · cases hn : number (c :: text.takeWhile Char.isDigit) with
      | error e => simp [hn, bind, Except.bind] at h
      | ok v =>
        simp [hn, bind, Except.bind, pure, Except.pure] at h
        exact h.2 ▸ length_dropWhile_le _ _
    · split at h
      · split at h
        · next hs => cases h; exact Nat.le_of_lt (length_splitFirst hs)
        · cases h
      · split at h
        · split at h
          · next hs => cases h; exact Nat.le_of_lt (length_literalRest hs)
          · cases h
        · split at h
          · next hs =>
            cases h
            have := length_markRest hs
            simp only [List.length_cons] at this
            omega
          · cases h

/-- The tokens of a text. -/
def tokens (text : List Char) : Except Fault (List Token) :=
  match text with
  | [] => .ok []
  | c :: rest =>
    if isBlank c then tokens rest
    else
      match _read : firstToken c rest with
      | .ok (token, rest) => (token :: ·) <$> tokens rest
      | .error fault => .error fault
termination_by text.length
decreasing_by
  · simp
  · exact Nat.lt_succ_of_le (length_firstToken _read)

@[simp] theorem tokens_nil : tokens [] = .ok [] := by
  rw [tokens]

theorem tokens_cons (c : Char) (rest : List Char) :
    tokens (c :: rest) =
      if isBlank c then tokens rest
      else firstToken c rest >>= fun read => (read.1 :: ·) <$> tokens read.2 := by
  rw [tokens]
  split
  · rfl
  · split <;> simp_all [bind, Except.bind]

end GoAtlas.Source
