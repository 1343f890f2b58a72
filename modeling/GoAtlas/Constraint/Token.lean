import GoAtlas.Constraint
import GoAtlas.Text.Blank
import GoAtlas.Text.Numeral

/-!
# Words of a constraint expression

An expression is read from left to right. A tag is a maximal run of tag
characters; `!`, `(`, `)`, `&&` and `||` are words of their own, and blanks only
separate words.
-/

namespace GoAtlas.Constraint

open Text

/-- Tags are made of letters, numerals, `_` and `.`. -/
def isTagChar (c : Char) : Bool :=
  isWordChar c || c == '_' || c == '.'

/-- The tag whose characters were read so far, last one first, as a word. -/
def flush (run : List Char) : List Token :=
  if run.isEmpty then [] else [.tag (String.ofList run.reverse)]

/-- The words of the rest of an expression. `run` holds the characters of the
tag that is being read, last one first, and `offset` the bytes read so far. -/
def tokensFrom (offset : Nat) (run : List Char) : List Char → Except Fault (List Token)
  | [] => .ok (flush run)
  | '&' :: '&' :: rest => (flush run ++ .and :: ·) <$> tokensFrom (offset + 2) [] rest
  | '|' :: '|' :: rest => (flush run ++ .or :: ·) <$> tokensFrom (offset + 2) [] rest
  | c :: rest =>
    let next := offset + c.utf8Size
    if isTagChar c then tokensFrom next (c :: run) rest
    else if isBlank c then (flush run ++ ·) <$> tokensFrom next [] rest
    else if c = '(' then (flush run ++ .lparen :: ·) <$> tokensFrom next [] rest
    else if c = ')' then (flush run ++ .rparen :: ·) <$> tokensFrom next [] rest
    else if c = '!' then (flush run ++ .not :: ·) <$> tokensFrom next [] rest
    else if c = '&' ∨ c = '|' then .error (.halfOperator c offset)
    else .error (.strangeChar c offset)

/-- The words of an expression. -/
def tokens (text : List Char) : Except Fault (List Token) :=
  tokensFrom 0 [] text

end GoAtlas.Constraint
