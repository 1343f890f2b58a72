import GoAtlas.Proofs.Constraint.Words
import GoAtlas.Proofs.TypeExpr.Reader
import GoAtlas.Source.Token

/-!
# Written tokens

`Spells` lists the ways to write a token: a word and a mark in one way, a number in
decimal digits, a string literal between quotes or between backquotes. Between quotes a
backslash stands before a quote and before a backslash, and may stand before any other
character.

`Written` puts tokens one after the other, with any blanks around them. Blanks are needed
only where a token would go on with what follows it (`Ends`). Whatever the blanks and the
way its literals are written, the tokens of a text are those it was written from
(`tokens_of_written`), and tokens whose words are words can be written (`written_write`).
-/

namespace GoAtlas.Source

open Text Description

variable {text rest : List Char} {c : Char}

/-! ## Characters -/

/-- A letter or `_`, then letters, numerals and `_`. -/
def isWord (word : String) : Bool :=
  match word.toList with
  | [] => false
  | c :: rest => isWordStart c && rest.all isWordRest

theorem isWordRest_of_isBlank (blank : isBlank c = true) : isWordRest c = false := by
  have tag := Constraint.isTagChar_of_isBlank blank
  simp only [Constraint.isTagChar, Bool.or_eq_false_iff] at tag
  simp [isWordRest, tag]

theorem isBlank_of_isWordStart (start : isWordStart c = true) : isBlank c = false := by
  apply eq_false_of_ne_true
  intro blank
  have word := isWordRest_of_isWordStart start
  rw [isWordRest_of_isBlank blank] at word
  cases word

theorem plain_of_digitCode : ∀ code ∈ List.range' 48 10,
    isBlank (Char.ofNat code) = false ∧ isWordStart (Char.ofNat code) = false := by
  decide +kernel

/-- A digit is no blank and starts no word. -/
theorem plain_of_isDigit (digit : c.isDigit = true) :
    isBlank c = false ∧ isWordStart c = false := by
  have range : c.toNat ∈ List.range' 48 10 := by
    simp only [Char.isDigit, Bool.and_eq_true, decide_eq_true_eq, ge_iff_le] at digit
    have low : 48 ≤ c.toNat := digit.1
    have high : c.toNat ≤ 57 := digit.2
    rw [List.mem_range'_1]
    omega
  have plain := plain_of_digitCode c.toNat range
  rwa [Char.ofNat_toNat] at plain

/-! ## The text of a token -/

/-- How a text is written between quotes. -/
inductive Quotes : List Char → List Char → Prop
  | nil : Quotes [] []
  | plain {c : Char} {text written : List Char} : c ≠ '"' → c ≠ '\\' → Quotes text written →
      Quotes (c :: text) (c :: written)
  | escaped {c : Char} {text written : List Char} : Quotes text written →
      Quotes (c :: text) ('\\' :: c :: written)

/-- The ways to write a token. -/
inductive Spells : Token → List Char → Prop
  | word {text : String} : isWord text = true → Spells (.word text) text.toList
  | int (value : UInt64) : Spells (.int value) (Nat.toDigits 10 value.toNat)
  | quoted {text : String} {written : List Char} : Quotes text.toList written →
      Spells (.literal text) ('"' :: (written ++ ['"']))
  | raw {text : String} : '\x60' ∉ text.toList →
      Spells (.literal text) ('\x60' :: (text.toList ++ ['\x60']))
  | mark (mark : Mark) : Spells (.mark mark) mark.text.toList

/-- The token goes on with the character. -/
def Token.goesOn : Token → Char → Bool
  | .word _, c => isWordRest c
  | .int _, c => c.isDigit
  | .mark .dot, c => c == '.'
  | _, _ => false

/-- The token does not go on with the text. -/
def Ends (token : Token) (rest : List Char) : Prop :=
  ∀ c, rest.head? = some c → token.goesOn c = false

/-- Tokens one after the other, with any blanks around them. -/
inductive Written : List Token → List Char → Prop
  | nil {blanks : List Char} : (∀ c ∈ blanks, isBlank c = true) → Written [] blanks
  | cons {blanks text rest : List Char} {token : Token} {others : List Token} :
      (∀ c ∈ blanks, isBlank c = true) → Spells token text → Ends token rest →
      Written others rest → Written (token :: others) (blanks ++ (text ++ rest))

/-! ## Reading a token -/

theorem literalRest_quotes {written : List Char} (quotes : Quotes text written) (rest : List Char) :
    literalRest (written ++ '"' :: rest) = some (text, rest) := by
  induction quotes with
  | nil => rfl
  | @plain c text written quote slash _ ih =>
    rw [List.cons_append, literalRest, ih]
    · rfl
    · exact quote
    · intro same
      exact absurd same slash
    · intro d tail same
      exact absurd same slash
  | escaped _ ih =>
    rw [List.cons_append, List.cons_append, literalRest, ih]
    rfl

theorem splitFirst_append {separator : Char} {before : List Char} (none : separator ∉ before)
    (after : List Char) :
    splitFirst separator (before ++ separator :: after) = some (before, after) := by
  induction before with
  | nil => simp [splitFirst]
  | cons c before ih =>
    rw [List.mem_cons, not_or] at none
    rw [List.cons_append, splitFirst, if_neg fun same => none.1 same.symm, ih none.2]
    rfl

theorem isDigit_of_mem_toDigits {value : Nat} (mem : c ∈ Nat.toDigits 10 value) :
    c.isDigit = true :=
  Nat.isDigit_of_mem_toDigits (by decide) (by decide) mem

theorem digits_start (value : Nat) : ∃ c tail, Nat.toDigits 10 value = c :: tail ∧
    c.isDigit = true ∧ ∀ d ∈ tail, d.isDigit = true := by
  have digits : ∀ c ∈ Nat.toDigits 10 value, c.isDigit = true :=
    fun c mem => isDigit_of_mem_toDigits mem
  cases chars : Nat.toDigits 10 value with
  | nil => exact absurd chars Nat.toDigits_ne_nil
  | cons c tail => exact ⟨c, tail, rfl, List.forall_mem_cons.1 (chars ▸ digits)⟩

theorem digitsValue_toDigits (value : Nat) : digitsValue (Nat.toDigits 10 value) = value := by
  have same : digitsValue (Nat.toDigits 10 value) =
      Nat.ofDigitChars 10 (Nat.toDigits 10 value) 0 := by
    rw [Nat.ofDigitChars_eq_foldl, digitsValue]
    simp only [Nat.mul_comm]
  rw [same, Nat.ofDigitChars_ten_toDigits]

theorem number_toDigits (value : UInt64) : number (Nat.toDigits 10 value.toNat) = .ok value := by
  rw [number, digitsValue_toDigits, if_pos value.toNat_lt, UInt64.ofNat_toNat]

variable {token : Token}

/-- A written token starts with a character that is no blank, and is the first token of a
text that it does not go on with. -/
theorem Spells.firstToken (spells : Spells token text) (ends : Ends token rest) :
    ∃ c tail, text = c :: tail ∧ isBlank c = false ∧
      firstToken c (tail ++ rest) = .ok (token, rest) := by
  cases spells with
  | @word word isWord =>
    cases chars : word.toList with
    | nil =>
      rw [Source.isWord, chars] at isWord
      cases isWord
    | cons c tail =>
      simp only [Source.isWord, chars, Bool.and_eq_true, List.all_eq_true] at isWord
      obtain ⟨start, word'⟩ := isWord
      refine ⟨c, tail, rfl, isBlank_of_isWordStart start, ?_⟩
      rw [Source.firstToken, if_pos start, takeWhile_append_stop word' ends,
        dropWhile_append_stop word' ends, ← chars, String.ofList_toList]
  | int value =>
    obtain ⟨c, tail, chars, first, others⟩ := digits_start value.toNat
    obtain ⟨blank, start⟩ := plain_of_isDigit first
    refine ⟨c, tail, chars, blank, ?_⟩
    rw [Source.firstToken, if_neg (by simp [start]), if_pos first,
      takeWhile_append_stop others ends, dropWhile_append_stop others ends, ← chars,
      number_toDigits]
    rfl
  | @quoted literal written quotes =>
    refine ⟨'"', _, rfl, by decide, ?_⟩
    have read := literalRest_quotes quotes rest
    rw [List.append_assoc, List.singleton_append]
    simp only [Source.firstToken, read, String.ofList_toList]
    rfl
  | @raw literal none =>
    refine ⟨'\x60', _, rfl, by decide, ?_⟩
    have read := splitFirst_append none rest
    rw [List.append_assoc, List.singleton_append]
    simp only [Source.firstToken, read, String.ofList_toList]
    rfl
  | mark mark =>
    cases mark with
    | dot =>
      refine ⟨'.', [], rfl, by decide, ?_⟩
      have read : markRest ('.' :: rest) = some (.dot, rest) := by
        cases rest with
        | nil => rfl
        | cons c tail =>
          rw [markRest]
          intro more same
          cases same
          exact absurd (ends '.' rfl) (by decide)
      rw [List.nil_append]
      simp only [Source.firstToken, read]
      rfl
    | _ => exact ⟨_, _, rfl, by decide, rfl⟩

theorem tokens_blanks {blanks : List Char} (blank : ∀ c ∈ blanks, isBlank c = true)
    (text : List Char) : tokens (blanks ++ text) = tokens text := by
  induction blanks with
  | nil => rfl
  | cons c blanks ih =>
    obtain ⟨first, others⟩ := List.forall_mem_cons.1 blank
    rw [List.cons_append, tokens_cons, if_pos first, ih others]

/-- A text is read as the tokens it was written from. -/
theorem tokens_of_written {written : List Token} (h : Written written text) :
    tokens text = .ok written := by
  induction h with
  | @nil blanks blank =>
    have read := tokens_blanks blank []
    rwa [List.append_nil, tokens_nil] at read
  | @cons blanks text rest token others blank spells ends _ ih =>
    obtain ⟨c, tail, rfl, visible, first⟩ := spells.firstToken ends
    rw [tokens_blanks blank, List.cons_append, tokens_cons, visible, if_neg Bool.false_ne_true,
      first]
    show (token :: ·) <$> tokens rest = _
    rw [ih]
    rfl

/-! ## A text for tokens -/

/-- A text as it stands between quotes, with a backslash only where one is needed. -/
def escapeQuotes : List Char → List Char
  | [] => []
  | c :: rest =>
    if c = '"' ∨ c = '\\' then '\\' :: c :: escapeQuotes rest else c :: escapeQuotes rest

theorem quotes_escapeQuotes (text : List Char) : Quotes text (escapeQuotes text) := by
  induction text with
  | nil => exact .nil
  | cons c rest ih =>
    rw [escapeQuotes]
    split
    · exact .escaped ih
    · next plain =>
      rw [not_or] at plain
      exact .plain plain.1 plain.2 ih

/-- The characters of a token. A literal stands between quotes. -/
def Token.chars : Token → List Char
  | .word text => text.toList
  | .int value => Nat.toDigits 10 value.toNat
  | .literal text => '"' :: (escapeQuotes text.toList ++ ['"'])
  | .mark sign => sign.text.toList

/-- The token is one that can be read: a word is a word. -/
def Token.isReadable : Token → Bool
  | .word text => isWord text
  | _ => true

theorem spells_chars (readable : token.isReadable = true) : Spells token token.chars := by
  cases token with
  | word text => exact .word readable
  | int value => exact .int value
  | literal text => exact .quoted (quotes_escapeQuotes text.toList)
  | mark mark => exact .mark mark

/-- A blank stands between the two tokens: where they would run together, and where it is
usual. -/
def Token.isApart : Token → Token → Bool
  | .mark .comma, _ | .mark .semicolon, _ | .mark .rparen, .word _ | .mark .dot, .mark _
  | .word _, .word _ | .word _, .int _ | .word _, .literal _ | .int _, .int _ => true
  | _, _ => false

/-- Tokens one after the other, with a blank where one stands between two. -/
def write : List Token → List Char
  | [] => []
  | [last] => last.chars
  | token :: next :: rest =>
    token.chars ++ ((if token.isApart next then [' '] else []) ++ write (next :: rest))

theorem Written.blanks {blanks text : List Char} {written : List Token}
    (blank : ∀ c ∈ blanks, isBlank c = true) (h : Written written text) :
    Written written (blanks ++ text) := by
  cases h with
  | nil more => exact .nil (List.forall_mem_append.2 ⟨blank, more⟩)
  | cons more spells ends others =>
    rw [← List.append_assoc]
    exact .cons (List.forall_mem_append.2 ⟨blank, more⟩) spells ends others

/-- A token written right before others. -/
theorem Written.prepend {others : List Token} (h : Written others rest) (spells : Spells token text)
    (ends : Ends token rest) : Written (token :: others) (text ++ rest) :=
  .cons (List.forall_mem_nil _) spells ends h

theorem ends_nil (token : Token) : Ends token [] := by
  intro c first
  cases first

/-- A token does not go on with a text that starts with another character. -/
theorem ends_of_starts (token : Token) {tail : List Char} (chars : text = c :: tail)
    (stops : token.goesOn c = false) (rest : List Char) : Ends token (text ++ rest) := by
  subst chars
  intro d first
  cases first
  exact stops

theorem ends_blank (token : Token) (rest : List Char) : Ends token (' ' :: rest) := by
  refine ends_of_starts token (rfl : [' '] = _) ?_ rest
  cases token with
  | word text =>
    show isWordRest ' ' = false
    decide
  | int value | literal text => rfl
  | mark sign => cases sign <;> rfl

theorem mark_starts (sign : Mark) : ∃ c tail, sign.text.toList = c :: tail ∧
    isWordRest c = false ∧ c.isDigit = false := by
  cases sign <;> exact ⟨_, _, rfl, by decide, by decide⟩

theorem word_starts {word : String} (h : isWord word = true) :
    ∃ c tail, word.toList = c :: tail ∧ isWordStart c = true := by
  unfold isWord at h
  split at h
  · cases h
  · next c tail chars =>
    rw [Bool.and_eq_true] at h
    exact ⟨c, tail, chars, h.1⟩

/-- Two tokens without a blank between them do not run together. -/
theorem ends_chars {next : Token} (close : token.isApart next = false)
    (readable : next.isReadable = true) (rest : List Char) : Ends token (next.chars ++ rest) := by
  cases token with
  | word text =>
    cases next with
    | mark sign =>
      obtain ⟨c, tail, chars, word, -⟩ := mark_starts sign
      exact ends_of_starts (.word text) chars word rest
    | _ => cases close
  | int value =>
    cases next with
    | word text =>
      obtain ⟨c, tail, chars, start⟩ := word_starts readable
      have plain : c.isDigit = false := by
        apply eq_false_of_ne_true
        intro digit
        rw [(plain_of_isDigit digit).2] at start
        cases start
      exact ends_of_starts (.int value) chars plain rest
    | int value => cases close
    | literal text => exact ends_of_starts (.int value) rfl rfl rest
    | mark sign =>
      obtain ⟨c, tail, chars, -, digit⟩ := mark_starts sign
      exact ends_of_starts (.int value) chars digit rest
  | literal text => exact fun _ _ => rfl
  | mark sign =>
    cases sign with
    | dot =>
      cases next with
      | word text =>
        obtain ⟨c, tail, chars, start⟩ := word_starts readable
        have plain : c ≠ '.' := by
          rintro rfl
          exact absurd start (by decide)
        exact ends_of_starts (.mark .dot) chars (beq_false_of_ne plain) rest
      | int value =>
        obtain ⟨c, tail, chars, first, -⟩ := digits_start value.toNat
        have plain : c ≠ '.' := by
          rintro rfl
          exact absurd first (by decide)
        exact ends_of_starts (.mark .dot) chars (beq_false_of_ne plain) rest
      | literal text => exact ends_of_starts (.mark .dot) rfl rfl rest
      | mark sign => cases close
    | _ => exact fun _ _ => rfl

theorem write_cons (token : Token) (others : List Token) :
    ∃ rest, write (token :: others) = token.chars ++ rest := by
  cases others with
  | nil => exact ⟨[], (List.append_nil _).symm⟩
  | cons next rest => exact ⟨_, rfl⟩

/-- Tokens that can be read can be written. -/
theorem written_write {written : List Token}
    (readable : ∀ token ∈ written, token.isReadable = true) : Written written (write written) := by
  induction written with
  | nil => exact .nil (List.forall_mem_nil _)
  | cons token others ih =>
    obtain ⟨first, readable⟩ := List.forall_mem_cons.1 readable
    have after := ih readable
    cases others with
    | nil =>
      rw [write, ← List.append_nil token.chars]
      exact after.prepend (spells_chars first) (ends_nil token)
    | cons next rest =>
      rw [write]
      split
      · have spaced := after.blanks (List.forall_mem_singleton.2 (rfl : isBlank ' ' = true))
        exact spaced.prepend (spells_chars first) (ends_blank token _)
      · next close =>
        obtain ⟨more, text⟩ := write_cons next rest
        refine after.prepend (spells_chars first) ?_
        rw [text]
        exact ends_chars (eq_false_of_ne_true close) (List.forall_mem_cons.1 readable).1 more

end GoAtlas.Source
