import GoAtlas.Proofs.Source.Written
import GoAtlas.Proofs.Text.Lines
import GoAtlas.Source.Scan

/-!
# Scanning written tokens

A line is scanned as text before it is cut into tokens. The scan for the body of a function
knows no literals. It counts brackets, and it takes a brace for that of a type literal where the
text before it ends in one of two words. So it passes over tokens whose brackets nest, with
nothing left of them but the text (`passes_nested`), as long as the brackets within each string
literal nest as well (`nests`). Where the tokens end, a brace is taken for the body unless the
last word ends like the word of a type literal (`opensLiteral_written`).
-/

namespace GoAtlas.Source

open Text Description

variable {toks others : List Token} {token : Token} {text rest before : List Char} {c : Char}
  {depth literal : Int} {within : Bool}
variable {word : String} {written blanks more : List Char}

/-! ## Characters -/

/-- The characters that the scan for a body counts. -/
def brackets : List Char :=
  ['(', ')', '[', ']', '\x7b', '\x7d']

/-- The characters that a scan does not pass over. -/
def scanned : List Char :=
  brackets ++ ['"', '\x60', '\'', '/']

theorem not_bracket_of_not_scanned (bare : c ∉ scanned) : c ∉ brackets :=
  fun mem => bare (List.mem_append_left _ mem)

theorem apart_of_scanned (mem : c ∈ scanned) :
    isBlank c = false ∧ isWordRest c = false ∧ c.isDigit = false := by
  have all : (scanned.all fun c => !isBlank c && !isWordRest c && !c.isDigit) = true := by
    decide +kernel
  simpa [and_assoc] using List.all_eq_true.1 all c mem

theorem not_scanned_of_isBlank (blank : isBlank c = true) : c ∉ scanned := by
  intro mem
  rw [(apart_of_scanned mem).1] at blank
  cases blank

theorem not_scanned_of_isWordRest (word : isWordRest c = true) : c ∉ scanned := by
  intro mem
  rw [(apart_of_scanned mem).2.1] at word
  cases word

theorem not_scanned_of_isDigit (digit : c.isDigit = true) : c ∉ scanned := by
  intro mem
  rw [(apart_of_scanned mem).2.2] at digit
  cases digit

theorem mem_word (h : isWord word = true) : ∀ c ∈ word.toList, isWordRest c = true := by
  intro c mem
  unfold isWord at h
  split at h
  · cases h
  · next first tail chars =>
    rw [Bool.and_eq_true, List.all_eq_true] at h
    rw [chars] at mem
    cases mem with
    | head => exact isWordRest_of_isWordStart h.1
    | tail _ mem => exact h.2 c mem

/-- The token has neither brackets nor quotes. -/
def Token.isBare : Token → Bool
  | .word _ | .int _ => true
  | .literal _ => false
  | .mark sign => sign.text.toList.all fun c => !scanned.contains c

theorem Spells.bare (spells : Spells token text) (bare : token.isBare = true) :
    ∀ c ∈ text, c ∉ scanned := by
  intro c mem
  cases spells with
  | word isWord => exact not_scanned_of_isWordRest (mem_word isWord c mem)
  | int value => exact not_scanned_of_isDigit (isDigit_of_mem_toDigits mem)
  | quoted _ | raw _ => cases bare
  | mark sign =>
    rw [Token.isBare, List.all_eq_true] at bare
    have other := bare c mem
    simpa using other

/-! ## Parts of a written text -/

theorem Ends.of_append (ends : Ends token (rest ++ more)) : Ends token rest := by
  intro c first
  apply ends c
  rw [List.head?_append, first]
  rfl

/-- Tokens in two parts are written in two parts. -/
theorem Written.split {first : List Token} (written : Written (first ++ others) text) :
    ∃ start final, text = start ++ final ∧ Written first start ∧ Written others final := by
  induction first generalizing text with
  | nil => exact ⟨[], text, rfl, .nil (List.forall_mem_nil _), written⟩
  | cons token first ih =>
    cases written with
    | @cons blanks chars rest _ _ blank spells ends after =>
      obtain ⟨start, final, rfl, writtenFirst, writtenOthers⟩ := ih after
      refine ⟨blanks ++ (chars ++ start), final, ?_, ?_, writtenOthers⟩
      · simp only [List.append_assoc]
      · exact .cons blank spells ends.of_append writtenFirst

theorem trimEnd_blanks (text : List Char) (blank : ∀ c ∈ blanks, isBlank c = true) :
    trimEnd (text ++ blanks) = trimEnd text := by
  rw [trimEnd, List.reverse_append, List.dropWhile_append_of_pos]
  · rfl
  · intro c mem
    exact blank c (List.mem_reverse.1 mem)

theorem trimEnd_prefix (text : List Char) : ∃ blanks, text = trimEnd text ++ blanks := by
  refine ⟨(text.reverse.takeWhile isBlank).reverse, ?_⟩
  rw [trimEnd, ← List.reverse_append, List.takeWhile_append_dropWhile, List.reverse_reverse]

theorem mark_ends (sign : Mark) : ∃ start c, sign.text.toList = start ++ [c] ∧
    isBlank c = false ∧ isWordStart c = false := by
  cases sign with
  | ellipsis => exact ⟨['.', '.'], '.', rfl, by decide⟩
  | arrow => exact ⟨['<'], '-', rfl, by decide⟩
  | _ => exact ⟨[], _, rfl, by decide⟩

/-- A token ends with a character that is no blank, and that is no letter unless the token is
a word. -/
theorem Spells.last (spells : Spells token text) : ∃ start c, text = start ++ [c] ∧
    isBlank c = false ∧ (isWordStart c = true → ∃ word, token = .word word) := by
  cases spells with
  | @word word isWord =>
    have chars : word.toList ≠ [] := by
      intro empty
      obtain ⟨c, tail, chars, -⟩ := word_starts isWord
      rw [empty] at chars
      cases chars
    refine ⟨_, _, (List.dropLast_append_getLast chars).symm, ?_, fun _ => ⟨word, rfl⟩⟩
    apply eq_false_of_ne_true
    intro blank
    have rest := mem_word isWord _ (List.getLast_mem chars)
    rw [isWordRest_of_isBlank blank] at rest
    cases rest
  | int value =>
    have chars : Nat.toDigits 10 value.toNat ≠ [] := Nat.toDigits_ne_nil
    obtain ⟨blank, start⟩ := plain_of_isDigit (isDigit_of_mem_toDigits (List.getLast_mem chars))
    refine ⟨_, _, (List.dropLast_append_getLast chars).symm, blank, ?_⟩
    intro word
    rw [start] at word
    cases word
  | quoted _ =>
    refine ⟨_, '"', (List.cons_append ..).symm, by decide, ?_⟩
    intro word
    exact absurd word (by decide)
  | raw _ =>
    refine ⟨_, '\x60', (List.cons_append ..).symm, by decide, ?_⟩
    intro word
    exact absurd word (by decide)
  | mark sign =>
    obtain ⟨start, c, chars, blank, word⟩ := mark_ends sign
    refine ⟨start, c, chars, blank, ?_⟩
    intro start
    rw [word] at start
    cases start

theorem trimEnd_spells (spells : Spells token text) (before rest : List Char) :
    trimEnd (before ++ (text ++ rest)) = before ++ (text ++ trimEnd rest) := by
  obtain ⟨start, c, rfl, visible, -⟩ := spells.last
  have whole := trimEnd_append_visible (before ++ start) rest visible
  simpa only [List.append_assoc, List.singleton_append] using whole

/-- The blanks at the end may be left out. -/
theorem Written.trimmedEnd (written : Written toks text) : Written toks (trimEnd text) := by
  induction written with
  | nil blank =>
    have none := trimEnd_blanks [] blank
    rw [List.nil_append] at none
    rw [none]
    exact .nil (List.forall_mem_nil _)
  | @cons blanks chars rest token others blank spells ends _ ih =>
    rw [trimEnd_spells spells]
    obtain ⟨tail, parts⟩ := trimEnd_prefix rest
    rw [parts] at ends
    exact .cons blank spells ends.of_append ih

/-- The blanks at the start may be left out. -/
theorem Written.trimmedStart (written : Written (token :: others) text) (after : List Char) :
    ∃ chars, trimStart (text ++ after) = chars ++ after ∧ Written (token :: others) chars := by
  cases written with
  | @cons blanks chars rest _ _ blank spells ends written =>
    refine ⟨chars ++ rest, ?_, written.prepend spells ends⟩
    obtain ⟨c, tail, rfl, visible, -⟩ := spells.firstToken ends
    rw [List.append_assoc, trimStart, List.dropWhile_append_of_pos blank]
    simp [visible]

/-! ## Texts that the scan for a body passes over -/

/-- The scan for the body of a function comes out of the text as it went in. `within` is
whether it stands in the braces of a type literal. -/
def Passes (within : Bool) (text : List Char) : Prop :=
  ∀ (before rest : List Char) (depth literal : Int), 0 ≤ literal → (within = true → 0 < literal) →
    splitBodyFrom before depth literal (text ++ rest) =
      splitBodyFrom (text.reverse ++ before) depth literal rest

theorem Passes.append (first : Passes within text) (second : Passes within more) :
    Passes within (text ++ more) := by
  intro before rest depth literal counted inside
  rw [List.append_assoc, first _ _ _ _ counted inside, second _ _ _ _ counted inside,
    List.reverse_append, List.append_assoc]

theorem splitBodyFrom_bare (bare : c ∉ brackets) :
    splitBodyFrom before depth literal (c :: rest) =
      splitBodyFrom (c :: before) depth literal rest := by
  simp only [brackets, List.mem_cons, not_or] at bare
  simp [splitBodyFrom, bare]

theorem passes_bare (bare : ∀ c ∈ text, c ∉ brackets) : Passes within text := by
  intro before rest depth literal counted inside
  induction text generalizing before with
  | nil => rfl
  | cons c text ih =>
    obtain ⟨first, bare⟩ := List.forall_mem_cons.1 bare
    rw [List.cons_append, splitBodyFrom_bare first, ih bare, List.reverse_cons, List.append_assoc]
    rfl

theorem passes_blanks (blank : ∀ c ∈ text, isBlank c = true) : Passes within text :=
  passes_bare fun c mem => not_bracket_of_not_scanned (not_scanned_of_isBlank (blank c mem))

theorem splitBodyFrom_opening (opening : c = '(' ∨ c = '[') :
    splitBodyFrom before depth literal (c :: rest) =
      splitBodyFrom (c :: before) (depth + 1) literal rest := by
  rw [splitBodyFrom, if_pos opening]

theorem splitBodyFrom_closing (closing : c = ')' ∨ c = ']') :
    splitBodyFrom before depth literal (c :: rest) =
      splitBodyFrom (c :: before) (depth - 1) literal rest := by
  rw [splitBodyFrom, if_neg (by rintro (rfl | rfl) <;> simp at closing), if_pos closing]

theorem Passes.enclosed {opening closing : Char} (inner : Passes within text)
    (opens : opening = '(' ∨ opening = '[') (closes : closing = ')' ∨ closing = ']') :
    Passes within (opening :: (text ++ [closing])) := by
  intro before rest depth literal counted inside
  rw [List.cons_append, splitBodyFrom_opening opens, List.append_assoc,
    inner _ _ _ _ counted inside, List.singleton_append, splitBodyFrom_closing closes,
    Int.add_sub_cancel]
  simp

/-- A brace after a word that opens a type literal does not start a body. -/
theorem splitBodyFrom_brace (counted : 0 ≤ literal) (opens : opensLiteral before = true) :
    splitBodyFrom before depth literal ('\x7b' :: rest) =
      splitBodyFrom ('\x7b' :: before) depth (literal + 1) rest := by
  rw [splitBodyFrom, if_neg (by decide), if_neg (by decide), if_pos rfl]
  split
  · rfl
  · next outside =>
    have none : literal = 0 := by omega
    rw [if_neg (by simp [opens]), none]
    rfl

theorem splitBodyFrom_endBrace (counted : 0 ≤ literal) :
    splitBodyFrom before depth (literal + 1) ('\x7d' :: rest) =
      splitBodyFrom ('\x7d' :: before) depth literal rest := by
  rw [splitBodyFrom, if_neg (by decide), if_neg (by decide), if_neg (by decide),
    if_pos ⟨rfl, by omega⟩, Int.add_sub_cancel]

/-- The words before the braces of a type literal. -/
def isLiteralWord (word : String) : Bool :=
  word == "struct" || word == "interface"

theorem isLiteralWord_cases (h : isLiteralWord word = true) :
    word = "struct" ∨ word = "interface" := by
  simpa [isLiteralWord] using h

theorem isWord_of_isLiteralWord (h : isLiteralWord word = true) : isWord word = true := by
  obtain rfl | rfl := isLiteralWord_cases h
  all_goals decide +kernel

theorem opensLiteral_reverse (text : List Char) : opensLiteral text.reverse =
    (endsWith "struct" (trimEnd text) || endsWith "interface" (trimEnd text)) :=
  rfl

theorem opensLiteral_word (h : isLiteralWord word = true) (blank : ∀ c ∈ blanks, isBlank c = true)
    (before : List Char) : opensLiteral ((word.toList ++ blanks).reverse ++ before) = true := by
  have whole : (word.toList ++ blanks).reverse ++ before =
      ((before.reverse ++ word.toList) ++ blanks).reverse := by simp
  rw [whole, opensLiteral_reverse, trimEnd_blanks _ blank]
  have kept := trimEnd_spells (Spells.word (isWord_of_isLiteralWord h)) before.reverse []
  simp only [List.append_nil] at kept
  rw [kept]
  obtain rfl | rfl := isLiteralWord_cases h
  all_goals simp [endsWith, List.isSuffixOf_iff_suffix, trimEnd]

theorem Passes.braces {word : String} {blanks : List Char} (inner : Passes true text)
    (h : isLiteralWord word = true) (blank : ∀ c ∈ blanks, isBlank c = true) :
    Passes within (word.toList ++ (blanks ++ '\x7b' :: (text ++ ['\x7d']))) := by
  intro before rest depth literal counted inside
  have bare : ∀ c ∈ word.toList ++ blanks, c ∉ brackets := by
    intro c mem
    apply not_bracket_of_not_scanned
    rw [List.mem_append] at mem
    obtain mem | mem := mem
    · exact not_scanned_of_isWordRest (mem_word (isWord_of_isLiteralWord h) c mem)
    · exact not_scanned_of_isBlank (blank c mem)
  have start := (passes_bare bare : Passes within _) before ('\x7b' :: (text ++ '\x7d' :: rest))
    depth literal counted inside
  have opens := opensLiteral_word h blank before
  have through := inner ('\x7b' :: ((word.toList ++ blanks).reverse ++ before)) ('\x7d' :: rest)
    depth (literal + 1) (by omega) (fun _ => by omega)
  rw [splitBodyFrom_brace counted opens, through, splitBodyFrom_endBrace counted] at start
  simpa using start

/-! ## Brackets within literals -/

/-- The brackets of a text nest from some place on: as many round and square ones are closed
as opened, with `round` open before, and no brace is closed that was not opened, with `curly`
open before. -/
def nestsFrom (round : Int) (curly : Nat) : List Char → Bool
  | [] => round == 0 && curly == 0
  | c :: rest =>
    if c = '(' ∨ c = '[' then nestsFrom (round + 1) curly rest
    else if c = ')' ∨ c = ']' then nestsFrom (round - 1) curly rest
    else if c = '\x7b' then nestsFrom round (curly + 1) rest
    else if c = '\x7d' then curly != 0 && nestsFrom round (curly - 1) rest
    else nestsFrom round curly rest

/-- The brackets of a text nest. -/
def nests (text : List Char) : Bool :=
  nestsFrom 0 0 text

/-- A backslash is no bracket. -/
theorem nestsFrom_quotes (quotes : Quotes text written) :
    ∀ round curly, nestsFrom round curly written = nestsFrom round curly text := by
  induction quotes with
  | nil => exact fun _ _ => rfl
  | plain _ _ _ ih | escaped _ ih =>
    intro round curly
    simp [nestsFrom, ih]

theorem splitBodyFrom_nestsFrom {round : Int} {curly : Nat}
    (nested : nestsFrom round curly text = true) (inside : 0 < literal) (rest : List Char) :
    ∀ before, splitBodyFrom before (depth + round) (literal + curly) (text ++ rest) =
      splitBodyFrom (text.reverse ++ before) depth literal rest := by
  fun_induction nestsFrom round curly text with
  | case1 round curly =>
    simp only [Bool.and_eq_true, beq_iff_eq] at nested
    obtain ⟨rfl, rfl⟩ := nested
    simp
  | case2 round curly c text opening ih =>
    intro before
    rw [List.cons_append, splitBodyFrom_opening opening, Int.add_assoc, ih nested]
    simp
  | case3 round curly c text _ closing ih =>
    intro before
    rw [List.cons_append, splitBodyFrom_closing closing, Int.add_sub_assoc, ih nested]
    simp
  | case4 round curly text _ _ ih =>
    intro before
    have step := ih nested ('\x7b' :: before)
    rw [List.cons_append, splitBodyFrom, if_neg (by decide), if_neg (by decide), if_pos rfl,
      if_pos (by omega), Int.add_assoc]
    simpa using step
  | case5 round curly text _ _ _ ih =>
    intro before
    simp only [Bool.and_eq_true, bne_iff_ne] at nested
    have fewer : literal + (curly : Int) = literal + ((curly - 1 : Nat) : Int) + 1 := by omega
    rw [List.cons_append, fewer, splitBodyFrom_endBrace (by omega), ih nested.2]
    simp
  | case6 round curly c text opening closing brace endBrace ih =>
    intro before
    rw [not_or] at opening closing
    have bare : c ∉ brackets := by simp [brackets, opening, closing, brace, endBrace]
    rw [List.cons_append, splitBodyFrom_bare bare, ih nested]
    simp

theorem passes_nests (nested : nests text = true) : Passes true text := by
  intro before rest depth literal _ inside
  have through := @splitBodyFrom_nestsFrom text depth literal 0 0 nested (inside rfl) rest before
  simpa using through

/-- The scan passes over a literal whose brackets nest, however it is written. -/
theorem passes_literal {tag : String} (nested : nests tag.toList = true)
    (spells : Spells (.literal tag) text) : Passes true text := by
  cases spells with
  | quoted quotes =>
    have quote : Passes true ['"'] := passes_bare (List.forall_mem_singleton.2 (by decide))
    have inner : Passes true _ := passes_nests ((nestsFrom_quotes quotes 0 0).trans nested)
    exact quote.append (inner.append quote)
  | raw _ =>
    have quote : Passes true ['\x60'] := passes_bare (List.forall_mem_singleton.2 (by decide))
    exact quote.append ((passes_nests nested).append quote)

/-! ## Tokens whose brackets nest -/

/-- Tokens whose brackets nest, with string literals only within the braces of a type
literal. -/
inductive Nested : Bool → List Token → Prop
  | nil {within : Bool} : Nested within []
  | bare {within : Bool} {token : Token} : token.isBare = true → Nested within [token]
  | tag {text : String} : nests text.toList = true → Nested true [.literal text]
  | append {within : Bool} {first others : List Token} : Nested within first →
      Nested within others → Nested within (first ++ others)
  | parens {within : Bool} {inner : List Token} : Nested within inner →
      Nested within (.mark .lparen :: (inner ++ [.mark .rparen]))
  | square {within : Bool} {inner : List Token} : Nested within inner →
      Nested within (.mark .lbracket :: (inner ++ [.mark .rbracket]))
  | braces {within : Bool} {word : String} {inner : List Token} : isLiteralWord word = true →
      Nested true inner →
      Nested within (.word word :: .mark .lbrace :: (inner ++ [.mark .rbrace]))

theorem passes_single (written : Written [token] text)
    (passes : ∀ chars, Spells token chars → Passes within chars) : Passes within text := by
  cases written with
  | cons blank spells _ after =>
    cases after with
    | nil more => exact (passes_blanks blank).append ((passes _ spells).append (passes_blanks more))

/-- Between two marks stands a text that the scan passes over. -/
theorem Written.between {first last : Mark} {inner : List Token}
    (written : Written (.mark first :: (inner ++ [.mark last])) text)
    (passes : ∀ {chars}, Written inner chars → Passes within chars) :
    ∃ blanks middle after,
      text = blanks ++ (first.text.toList ++ (middle ++ (last.text.toList ++ after))) ∧
        (∀ c ∈ blanks, isBlank c = true) ∧ (∀ c ∈ after, isBlank c = true) ∧
        Passes within middle := by
  cases written with
  | @cons blanks chars rest _ _ blank spells _ follows =>
    obtain ⟨start, final, rfl, writtenInner, writtenLast⟩ := follows.split
    cases spells
    cases writtenLast with
    | @cons more chars after _ _ moreBlank spells _ ending =>
      cases spells
      cases ending with
      | nil afterBlank =>
        refine ⟨blanks, start ++ more, after, ?_, blank, afterBlank, ?_⟩
        · simp only [List.append_assoc]
        · exact (passes writtenInner).append (passes_blanks moreBlank)

/-- The scan for a body passes over tokens whose brackets nest. -/
theorem passes_nested (nested : Nested within toks) (written : Written toks text) :
    Passes within text := by
  induction nested generalizing text with
  | nil =>
    cases written with
    | nil blank => exact passes_blanks blank
  | bare bare =>
    exact passes_single written fun chars spells => passes_bare fun c mem =>
      not_bracket_of_not_scanned (spells.bare bare c mem)
  | tag nested => exact passes_single written fun chars spells => passes_literal nested spells
  | append _ _ first second =>
    obtain ⟨start, final, rfl, writtenFirst, writtenOthers⟩ := written.split
    exact (first writtenFirst).append (second writtenOthers)
  | parens _ ih =>
    obtain ⟨blanks, middle, after, rfl, blank, afterBlank, inner⟩ := written.between ih
    have whole := (inner.enclosed (.inl rfl) (.inl rfl)).append (passes_blanks afterBlank)
    rw [List.cons_append, List.append_assoc] at whole
    exact (passes_blanks blank).append whole
  | square _ ih =>
    obtain ⟨blanks, middle, after, rfl, blank, afterBlank, inner⟩ := written.between ih
    have whole := (inner.enclosed (.inr rfl) (.inr rfl)).append (passes_blanks afterBlank)
    rw [List.cons_append, List.append_assoc] at whole
    exact (passes_blanks blank).append whole
  | @braces within word _ h _ ih =>
    cases written with
    | cons blank spells _ follows =>
      cases spells
      obtain ⟨gap, middle, after, rfl, gapBlank, afterBlank, inner⟩ := follows.between ih
      have literal : Passes within _ := inner.braces h gapBlank
      have whole := literal.append (passes_blanks afterBlank)
      simp only [List.append_assoc, List.cons_append] at whole
      exact (passes_blanks blank).append whole

/-! ## The last word -/

/-- The token is a word that ends like the given one. -/
def Token.endsLike (final : String) : Token → Bool
  | .word text => endsWith final text.toList
  | _ => false

/-- The last token is a word that ends like the word of a type literal. -/
def endsOpening (toks : List Token) : Bool :=
  toks.getLast?.any fun token => token.endsLike "struct" || token.endsLike "interface"

/-- Where a text of letters ends is not changed by what stands before a word. -/
theorem endsWith_word {final : String} {start word : List Char}
    (letters : ∀ c ∈ final.toList, isWordStart c = true)
    (apart : ∀ c, start.getLast? = some c → isWordStart c = false) :
    endsWith final (start ++ word) = endsWith final word := by
  rw [Bool.eq_iff_iff, endsWith, endsWith, List.isSuffixOf_iff_suffix, List.isSuffixOf_iff_suffix]
  constructor
  · intro suffix
    obtain inside | ⟨more, split⟩ :=
      List.suffix_or_suffix_of_suffix suffix (List.suffix_append start word)
    · exact inside
    · obtain ⟨front, whole⟩ := suffix
      rw [← split, ← List.append_assoc, List.append_left_inj] at whole
      obtain rfl | ⟨init, c, rfl⟩ := List.eq_nil_or_concat more
      · rw [← split]
        exact List.suffix_refl _
      · -- the text goes on before the word, with a letter
        have letter := letters c (by simp [← split])
        rw [apart c (by simp [← whole])] at letter
        cases letter
  · intro suffix
    exact suffix.trans (List.suffix_append start word)

/-- After a word stands no letter. -/
theorem Ends.after_word (ends : Ends (.word word) rest) (first : rest.head? = some c) :
    isWordStart c = false := by
  have stops : isWordRest c = false := ends c first
  apply eq_false_of_ne_true
  intro letter
  rw [isWordRest_of_isWordStart letter] at stops
  cases stops

/-- The last token stands at the end of the text. Before a word stands no letter. -/
theorem Written.last (written : Written toks text) (last : toks.getLast? = some token) :
    ∃ start final, trimEnd text = start ++ final ∧ Spells token final ∧
      ((∃ word, token = .word word) → ∀ c, start.getLast? = some c → isWordStart c = false) := by
  induction written with
  | nil _ => cases last
  | @cons blanks chars rest first others blank spells ends after ih =>
    rw [trimEnd_spells spells]
    cases others with
    | nil =>
      cases last
      cases after with
      | nil more =>
        have none := trimEnd_blanks [] more
        rw [List.nil_append] at none
        refine ⟨blanks, chars, by rw [none]; simp [trimEnd], spells, ?_⟩
        intro _ c mem
        apply eq_false_of_ne_true
        intro start
        have visible := isBlank_of_isWordStart start
        rw [blank c (List.mem_of_getLast? mem)] at visible
        cases visible
    | cons next others =>
      rw [List.getLast?_cons_cons] at last
      obtain ⟨start, final, parts, spellsLast, apart⟩ := ih last
      refine ⟨blanks ++ (chars ++ start), final, by rw [parts]; simp, spellsLast, ?_⟩
      rintro ⟨word, rfl⟩ c mem
      obtain rfl | ⟨init, d, rfl⟩ := List.eq_nil_or_concat start
      · apply eq_false_of_ne_true
        intro letter
        obtain ⟨init, d, rfl, -, isWord⟩ := spells.last
        simp only [List.append_nil, ← List.append_assoc, List.getLast?_concat,
          Option.some.injEq] at mem
        subst mem
        obtain ⟨other, rfl⟩ := isWord letter
        -- two words without a blank between them would be one
        cases spellsLast with
        | word isWord =>
          obtain ⟨e, tail, head, wordStart⟩ := word_starts isWord
          obtain ⟨gap, whole⟩ := trimEnd_prefix rest
          have none := (ends.after_word (by rw [whole, parts, head]; rfl) : isWordStart e = false)
          rw [wordStart] at none
          cases none
      · apply apart ⟨word, rfl⟩
        simpa [← List.append_assoc] using mem

theorem letters_of_isLiteralWord (h : isLiteralWord word = true) :
    ∀ c ∈ word.toList, isWordStart c = true := by
  rw [← List.all_eq_true]
  obtain rfl | rfl := isLiteralWord_cases h
  all_goals decide +kernel

theorem endsWith_written {final : String} (h : isLiteralWord final = true)
    (written : Written toks text) (last : toks.getLast? = some token) :
    endsWith final (trimEnd text) = token.endsLike final := by
  have letters := letters_of_isLiteralWord h
  obtain ⟨start, chars, parts, spells, apart⟩ := written.last last
  rw [parts]
  by_cases word : ∃ word, token = .word word
  · obtain ⟨word, rfl⟩ := word
    cases spells
    exact endsWith_word letters (apart ⟨word, rfl⟩)
  · obtain ⟨init, c, rfl, -, letter⟩ := spells.last
    have other : ∀ d, (start ++ (init ++ [c])).getLast? = some d → isWordStart d = false := by
      intro d same
      rw [← List.append_assoc, List.getLast?_concat, Option.some.injEq] at same
      rw [← same]
      exact eq_false_of_ne_true fun start => word (letter start)
    have nothing : endsWith final (start ++ (init ++ [c]) ++ []) = endsWith final [] :=
      endsWith_word letters other
    rw [List.append_nil] at nothing
    have none : endsWith final [] = false := by
      obtain rfl | rfl := isLiteralWord_cases h <;> rfl
    rw [nothing, none]
    cases token with
    | word text => exact (word ⟨text, rfl⟩).elim
    | _ => rfl

/-- A brace after written tokens is that of a type literal by their last word. -/
theorem opensLiteral_written (written : Written toks text) :
    opensLiteral text.reverse = endsOpening toks := by
  rw [opensLiteral_reverse]
  cases last : toks.getLast? with
  | none =>
    rw [List.getLast?_eq_none_iff] at last
    subst last
    cases written with
    | nil blank =>
      rw [← List.nil_append text, trimEnd_blanks [] blank]
      rfl
  | some token =>
    rw [endsWith_written rfl written last, endsWith_written rfl written last, endsOpening, last]
    rfl

end GoAtlas.Source
