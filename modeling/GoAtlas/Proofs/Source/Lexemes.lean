import GoAtlas.Proofs.Source.Scanning
import Mathlib.Data.List.TakeWhile

/-!
# Lexemes

A text has tokens if and only if it is made of their lexemes, with any blanks around them
(`tokens_eq_ok_iff`). A lexeme is one of the ways to write a token, where a number may also start
with zeros (`Lexeme`), and it does not go on with what follows it (`Token.goesOnWith`).
-/

namespace GoAtlas.Source

open Text Description

variable {toks others : List Token} {token : Token} {text rest after : List Char} {c : Char}

/-! ## Lexemes -/

/-- The texts that are read as a token. -/
inductive Lexeme : Token → List Char → Prop
  | spelled {token : Token} {text : List Char} : Spells token text → Lexeme token text
  | digits {text : List Char} {value : UInt64} : text ≠ [] → (∀ c ∈ text, c.isDigit = true) →
      number text = .ok value → Lexeme (.int value) text

/-- The token would be read on into the text. -/
def Token.goesOnWith : Token → List Char → Bool
  | .word _, rest => rest.head?.any isWordRest
  | .int _, rest => rest.head?.any Char.isDigit
  | .literal _, _ => false
  | .mark sign, rest => sign == .dot && ['.', '.'].isPrefixOf rest

/-- Lexemes one after the other, with any blanks around them. -/
inductive Lexed : List Token → List Char → Prop
  | nil {blanks : List Char} : (∀ c ∈ blanks, isBlank c = true) → Lexed [] blanks
  | cons {blanks text rest : List Char} {token : Token} {others : List Token} :
      (∀ c ∈ blanks, isBlank c = true) → Lexeme token text → token.goesOnWith rest = false →
      Lexed others rest → Lexed (token :: others) (blanks ++ (text ++ rest))

theorem Lexed.blanks {blanks : List Char} (blank : ∀ c ∈ blanks, isBlank c = true)
    (h : Lexed toks text) : Lexed toks (blanks ++ text) := by
  cases h with
  | nil more => exact .nil (List.forall_mem_append.2 ⟨blank, more⟩)
  | cons more lexeme stops others =>
    rw [← List.append_assoc]
    exact .cons (List.forall_mem_append.2 ⟨blank, more⟩) lexeme stops others

/-- A lexeme right before others. -/
theorem Lexed.prepend (h : Lexed others rest) (lexeme : Lexeme token text)
    (stops : token.goesOnWith rest = false) : Lexed (token :: others) (text ++ rest) :=
  .cons (List.forall_mem_nil _) lexeme stops h

/-! ## Reading a token -/

theorem any_head?_eq_false {p : Char → Bool} (stops : rest.head?.any p = false) :
    ∀ c, rest.head? = some c → p c = false := by
  intro c first
  rwa [first] at stops

theorem firstToken_digits {digits : List Char} {value : UInt64}
    (all : ∀ d ∈ c :: digits, d.isDigit = true) (read : number (c :: digits) = .ok value)
    (stops : Token.goesOnWith (.int value) rest = false) :
    firstToken c (digits ++ rest) = .ok (.int value, rest) := by
  obtain ⟨digit, others⟩ := List.forall_mem_cons.1 all
  have ends := any_head?_eq_false stops
  rw [firstToken, if_neg (by simp [plain_of_isDigit digit]), if_pos digit,
    takeWhile_append_stop others ends, dropWhile_append_stop others ends, read]
  rfl

theorem markRest_dot (stops : Token.goesOnWith (.mark .dot) rest = false) :
    markRest ('.' :: rest) = some (.dot, rest) := by
  rw [markRest]
  rintro more rfl
  cases stops

/-- A lexeme is read as its token where it does not go on. -/
theorem Lexeme.firstToken (lexeme : Lexeme token text) (stops : token.goesOnWith rest = false) :
    ∃ c tail, text = c :: tail ∧ isBlank c = false ∧
      firstToken c (tail ++ rest) = .ok (token, rest) := by
  cases lexeme with
  | digits some all read =>
    obtain ⟨c, tail, rfl⟩ := List.exists_cons_of_ne_nil some
    exact ⟨c, tail, rfl, (plain_of_isDigit (all c List.mem_cons_self)).1,
      firstToken_digits all read stops⟩
  | spelled spells =>
    cases token with
    | word word => exact spells.firstToken (any_head?_eq_false stops)
    | int value => exact spells.firstToken (any_head?_eq_false stops)
    | literal literal => exact spells.firstToken fun _ _ => rfl
    | mark sign =>
      by_cases dot : sign = .dot
      · subst dot
        cases spells
        refine ⟨'.', [], rfl, by decide, ?_⟩
        rw [List.nil_append, Source.firstToken, markRest_dot stops]
        rfl
      · refine spells.firstToken fun c _ => ?_
        cases sign with
        | dot => exact absurd rfl dot
        | _ => rfl

theorem splitFirst_eq_some {separator : Char} {before : List Char}
    (h : splitFirst separator text = some (before, after)) :
    text = before ++ separator :: after ∧ separator ∉ before := by
  induction text generalizing before with
  | nil => cases h
  | cons c rest ih =>
    rw [splitFirst] at h
    split at h
    · next same =>
      cases h
      exact ⟨by rw [same]; rfl, List.not_mem_nil⟩
    · next other =>
      obtain ⟨⟨start, final⟩, split, parts⟩ := Option.map_eq_some_iff.1 h
      cases parts
      obtain ⟨rfl, none⟩ := ih split
      exact ⟨rfl, by simp [none, Ne.symm other]⟩

theorem literalRest_eq_some {literal : List Char} (h : literalRest text = some (literal, after)) :
    ∃ written, text = written ++ '"' :: after ∧ Quotes literal written := by
  fun_induction literalRest text generalizing literal with
  | case1 => cases h
  | case2 rest =>
    cases h
    exact ⟨[], rfl, .nil⟩
  | case3 => cases h
  | case4 c rest ih =>
    obtain ⟨⟨inner, final⟩, read, parts⟩ := Option.map_eq_some_iff.1 h
    cases parts
    obtain ⟨written, rfl, quotes⟩ := ih read
    exact ⟨'\\' :: c :: written, rfl, .escaped quotes⟩
  | case5 c rest quote last escape ih =>
    obtain ⟨⟨inner, final⟩, read, parts⟩ := Option.map_eq_some_iff.1 h
    cases parts
    obtain ⟨written, rfl, quotes⟩ := ih read
    refine ⟨c :: written, rfl, .plain quote ?_ quotes⟩
    rintro rfl
    cases written <;> exact escape _ _ rfl rfl

theorem markRest_eq_some {sign : Mark} (h : markRest text = some (sign, after)) :
    text = sign.text.toList ++ after ∧ Token.goesOnWith (.mark sign) after = false := by
  unfold markRest at h
  split at h
  case h_12 rest single =>
    cases h
    refine ⟨rfl, ?_⟩
    apply eq_false_of_ne_true
    intro dots
    obtain ⟨more, rfl⟩ := List.isPrefixOf_iff_prefix.1 dots
    exact single more rfl
  case h_14 => cases h
  all_goals
    cases h
    exact ⟨rfl, rfl⟩

theorem any_head?_dropWhile (p : Char → Bool) (text : List Char) :
    (text.dropWhile p).head?.any p = false := by
  cases left : text.dropWhile p with
  | nil => rfl
  | cons c rest =>
    have stop := List.head_dropWhile_not p (by simp [left] : text.dropWhile p ≠ [])
    simpa [left] using stop

/-- What is read as a token is a lexeme of it, and does not go on. -/
theorem lexeme_of_firstToken (read : firstToken c rest = .ok (token, after)) :
    ∃ chars, c :: rest = chars ++ after ∧ Lexeme token chars ∧ token.goesOnWith after = false := by
  unfold firstToken at read
  split at read
  · next start =>
    cases read
    refine ⟨c :: rest.takeWhile isWordRest, ?_, .spelled ?_, any_head?_dropWhile _ _⟩
    · rw [List.cons_append, List.takeWhile_append_dropWhile]
    · have word : isWord (String.ofList (c :: rest.takeWhile isWordRest)) = true := by
        rw [isWord, String.toList_ofList]
        simp [start]
      simpa using Spells.word word
  split at read
  · next digit =>
    obtain ⟨value, number, done⟩ := Constraint.bind_eq_ok.1 read
    cases done
    refine ⟨c :: rest.takeWhile Char.isDigit, ?_, .digits (List.cons_ne_nil _ _) ?_ number,
      any_head?_dropWhile _ _⟩
    · rw [List.cons_append, List.takeWhile_append_dropWhile]
    · exact List.forall_mem_cons.2 ⟨digit, fun d => List.mem_takeWhile_imp⟩
  split at read
  · next quote =>
    subst quote
    split at read
    · next text final split =>
      cases read
      obtain ⟨rfl, none⟩ := splitFirst_eq_some split
      have raw : Spells (.literal (String.ofList text)) _ := .raw (by simpa using none)
      refine ⟨_, ?_, .spelled raw, rfl⟩
      simp
    · cases read
  split at read
  · next quote =>
    subst quote
    split at read
    · next text final split =>
      cases read
      obtain ⟨written, rfl, quotes⟩ := literalRest_eq_some split
      have quoted : Spells (.literal (String.ofList text)) _ := .quoted (by simpa using quotes)
      refine ⟨_, ?_, .spelled quoted, rfl⟩
      simp
    · cases read
  split at read
  · next sign final found =>
    cases read
    obtain ⟨whole, stops⟩ := markRest_eq_some found
    exact ⟨_, whole, .spelled (.mark sign), stops⟩
  · cases read

theorem lexed_of_tokens {text : List Char} {toks : List Token} (read : tokens text = .ok toks) :
    Lexed toks text := by
  cases text with
  | nil =>
    rw [tokens_nil] at read
    cases read
    exact .nil (List.forall_mem_nil _)
  | cons c rest =>
    rw [tokens_cons] at read
    split at read
    · next blank => exact (lexed_of_tokens read).blanks (List.forall_mem_singleton.2 blank)
    · obtain ⟨⟨token, after⟩, first, read⟩ := Constraint.bind_eq_ok.1 read
      obtain ⟨others, later, rfl⟩ := Constraint.map_eq_ok.1 read
      have shorter := length_firstToken first
      obtain ⟨chars, whole, lexeme, stops⟩ := lexeme_of_firstToken first
      rw [whole]
      exact (lexed_of_tokens later).prepend lexeme stops
termination_by text.length
decreasing_by
  · subst_vars
    exact Nat.lt_succ_of_le shorter
  · subst_vars
    exact Nat.lt_succ_self _

/-- No token goes on with the character. -/
def separates (c : Char) : Bool :=
  !isWordRest c && !c.isDigit && c != '.'

theorem goesOnWith_append (stops : token.goesOnWith text = false)
    (apart : rest.head?.all separates = true) : token.goesOnWith (text ++ rest) = false := by
  have plain : ∀ c, rest.head? = some c →
      isWordRest c = false ∧ c.isDigit = false ∧ c ≠ '.' := by
    intro c first
    rw [first] at apart
    simpa [separates, and_assoc] using apart
  cases token with
  | literal literal => rfl
  | word word =>
    cases text with
    | cons c text => exact stops
    | nil =>
      cases rest with
      | nil => rfl
      | cons c rest => exact (plain c rfl).1
  | int value =>
    cases text with
    | cons c text => exact stops
    | nil =>
      cases rest with
      | nil => rfl
      | cons c rest => exact (plain c rfl).2.1
  | mark sign =>
    apply eq_false_of_ne_true
    intro goes
    rw [Token.goesOnWith, Bool.and_eq_true] at goes
    obtain ⟨dot, dots⟩ := goes
    obtain ⟨more, whole⟩ := List.isPrefixOf_iff_prefix.1 dots
    -- one of the two dots would stand after the text, or the token goes on with the text
    cases text with
    | nil => exact (plain '.' (by rw [← List.nil_append rest, ← whole]; rfl)).2.2 rfl
    | cons c text =>
      cases text with
      | nil =>
        cases whole
        exact (plain '.' rfl).2.2 rfl
      | cons d text =>
        cases whole
        rw [Token.goesOnWith, dot] at stops
        cases stops

/-- Texts are cut one by one where no token goes on from one to the other. -/
theorem tokens_append (h : Lexed toks text) (apart : rest.head?.all separates = true) :
    tokens (text ++ rest) = (toks ++ ·) <$> tokens rest := by
  induction h with
  | nil blank =>
    rw [tokens_blanks blank]
    cases tokens rest <;> rfl
  | @cons blanks text after token others blank lexeme stops _ ih =>
    obtain ⟨c, tail, rfl, visible, first⟩ := lexeme.firstToken (goesOnWith_append stops apart)
    rw [List.append_assoc, tokens_blanks blank, List.append_assoc, List.cons_append, tokens_cons,
      visible, if_neg Bool.false_ne_true, first]
    show (token :: ·) <$> tokens (after ++ rest) = _
    rw [ih]
    cases tokens rest <;> rfl

theorem tokens_of_lexed (h : Lexed toks text) : tokens text = .ok toks := by
  have read : tokens (text ++ []) = (toks ++ ·) <$> tokens [] := tokens_append h rfl
  rw [List.append_nil, tokens_nil] at read
  rw [read]
  exact congrArg Except.ok (List.append_nil toks)

/-- A text has exactly the tokens whose lexemes it is made of. -/
theorem tokens_eq_ok_iff : tokens text = .ok toks ↔ Lexed toks text :=
  ⟨lexed_of_tokens, tokens_of_lexed⟩

/-! ## Texts one after the other -/

theorem Lexed.append {more : List Token} (h : Lexed toks text) (h' : Lexed more rest)
    (apart : rest.head?.all separates = true) : Lexed (toks ++ more) (text ++ rest) := by
  rw [← tokens_eq_ok_iff, tokens_append h apart, tokens_of_lexed h']
  rfl

theorem Lexed.mark {sign : Mark} (lexed : Lexed toks text) (plain : sign ≠ .dot) :
    Lexed (.mark sign :: toks) (sign.text.toList ++ text) := by
  refine lexed.prepend (.spelled (.mark sign)) ?_
  simp [Token.goesOnWith, plain]

theorem Lexed.word {word : String} (lexed : Lexed toks text) (isWord : isWord word = true)
    (apart : text.head?.all separates = true) :
    Lexed (.word word :: toks) (word.toList ++ text) := by
  refine lexed.prepend (.spelled (.word isWord)) ?_
  cases text with
  | nil => rfl
  | cons c text =>
    have plain : separates c = true := apart
    rw [separates, Bool.and_assoc, Bool.and_eq_true, Bool.not_eq_true'] at plain
    exact plain.1

/-- A text that has tokens does not start like a comment. -/
theorem Lexed.startsWith_eq_false {start : String} (lexed : Lexed toks text)
    (slash : start.toList.head? = some '/') : startsWith start text = false := by
  apply eq_false_of_ne_true
  intro starts
  obtain ⟨more, whole⟩ := List.isPrefixOf_iff_prefix.1 starts
  obtain ⟨mark, marked⟩ := List.head?_eq_some_iff.1 slash
  rw [marked, List.cons_append] at whole
  have cut := tokens_eq_ok_iff.2 lexed
  rw [← whole, tokens_cons] at cut
  cases cut

end GoAtlas.Source
