import GoAtlas.Proofs.Source.Lexemes

/-!
# Scans of a line

The scan for a comment and the scan for braces step from character to character and know no
tokens. From the quote of a literal on they are within it until they have passed its last
character. So they pass over a text that has tokens lexeme by lexeme: the first finds no comment,
and the second counts the braces that are tokens and no others (`Lexed.scans`).

The scan for a comment may as well go over the bytes of a line. All the characters that it looks
for are in ASCII, and no byte of another character is, so it stops at the same place
(`beforeComment_utf8`).
-/

namespace GoAtlas.Source

open Text Description

variable {toks : List Token} {token : Token} {text written others : List Char} {c : Char}
variable {state : Quoting}

/-! ## Passing over a text -/

/-- Both scans pass over the text and are outside literals after it. No comment starts within the
text, and it opens so many braces. -/
structure Scans (state : Quoting) (text : List Char) (weight : Int) : Prop where
  comment : ∀ rest, beforeComment state (text ++ rest) = text ++ beforeComment .outside rest
  balance : ∀ rest, balanceFrom state (text ++ rest) = weight + balanceFrom .outside rest

namespace Scans

variable {weight more : Int}

theorem nil : Scans .outside [] 0 :=
  ⟨fun _ => rfl, fun _ => (Int.zero_add _).symm⟩

/-- A character within a literal is passed over. -/
theorem within (inside : state ≠ .outside) (scans : Scans (state.step c) text weight) :
    Scans state (c :: text) weight where
  comment rest := by
    rw [List.cons_append, beforeComment, if_neg fun start => inside start.1, scans.comment]
    rfl
  balance rest := by
    rw [List.cons_append, balanceFrom, if_neg inside, scans.balance, Int.zero_add]

/-- Outside literals a character counts, and it must not start a comment. -/
theorem outside (slash : c ≠ '/') (scans : Scans (Quoting.step .outside c) text weight) :
    Scans .outside (c :: text) (braceWeight c + weight) where
  comment rest := by
    rw [List.cons_append, beforeComment, if_neg fun start => slash start.2.1, scans.comment]
    rfl
  balance rest := by
    rw [List.cons_append, balanceFrom, if_pos rfl, scans.balance, Int.add_assoc]

theorem append (first : Scans state text weight) (second : Scans .outside others more) :
    Scans state (text ++ others) (weight + more) where
  comment rest := by simp only [List.append_assoc, first.comment, second.comment]
  balance rest := by rw [List.append_assoc, first.balance, second.balance, Int.add_assoc]

theorem bare (bare : ∀ c ∈ text, c ∉ scanned) : Scans .outside text 0 := by
  induction text with
  | nil => exact nil
  | cons c text ih =>
    obtain ⟨first, bare⟩ := List.forall_mem_cons.1 bare
    simp only [scanned, brackets, List.mem_append, List.mem_cons, not_or] at first
    have step : Quoting.step .outside c = .outside := by
      simp [Quoting.step, Quoting.isQuote, first]
    have weight : braceWeight c = 0 := by simp [braceWeight, first]
    have slash : c ≠ '/' := by simp [first]
    have scans := outside slash (step.symm ▸ ih bare)
    rwa [weight] at scans

theorem blank (blank : ∀ c ∈ text, isBlank c = true) : Scans .outside text 0 :=
  bare fun c mem => not_scanned_of_isBlank (blank c mem)

end Scans

/-! ## Literals -/

theorem scans_quotes (quotes : Quotes text written) :
    Scans (.inside '"') (written ++ ['"']) 0 := by
  induction quotes with
  | nil => exact .within (by simp) .nil
  | @plain c text written quote slash _ ih =>
    have step : Quoting.step (.inside '"') c = .inside '"' := by simp [Quoting.step, quote, slash]
    exact .within (by simp) (step.symm ▸ ih)
  | escaped _ ih => exact .within (by simp) (.within (by decide) ih)

theorem scans_raw (none : '\x60' ∉ text) : Scans (.inside '\x60') (text ++ ['\x60']) 0 := by
  induction text with
  | nil => exact .within (by simp) .nil
  | cons c text ih =>
    rw [List.mem_cons, not_or] at none
    have step : Quoting.step (.inside '\x60') c = .inside '\x60' := by
      simp [Quoting.step, Ne.symm none.1]
    exact .within (by simp) (step.symm ▸ ih none.2)

/-! ## Tokens -/

/-- How much a token opens. -/
def Token.weight (token : Token) : Int :=
  if token = .mark .lbrace then 1 else if token = .mark .rbrace then -1 else 0

/-- The opening braces among tokens minus the closing ones. -/
def braces : List Token → Int
  | [] => 0
  | token :: toks => token.weight + braces toks

@[simp] theorem braces_nil : braces [] = 0 := rfl

@[simp] theorem braces_cons (token : Token) (toks : List Token) :
    braces (token :: toks) = token.weight + braces toks := rfl

@[simp] theorem braces_append (toks more : List Token) :
    braces (toks ++ more) = braces toks + braces more := by
  induction toks with
  | nil => simp
  | cons token toks ih => rw [List.cons_append, braces_cons, braces_cons, ih, Int.add_assoc]

theorem braces_eq_count (toks : List Token) :
    braces toks = toks.count (.mark .lbrace) - toks.count (.mark .rbrace) := by
  induction toks with
  | nil => rfl
  | cons token toks ih =>
    rw [braces_cons, ih, Token.weight, List.count_cons, List.count_cons]
    by_cases opens : token = .mark .lbrace
    · subst opens
      simp
      omega
    · by_cases closes : token = .mark .rbrace
      · subst closes
        simp
        omega
      · simp [opens, closes]

/-- Both scans pass over a lexeme, and count it if it is a brace. -/
theorem Lexeme.scans (lexeme : Lexeme token text) : Scans .outside text token.weight := by
  cases lexeme with
  | digits _ digits _ => exact .bare fun c mem => not_scanned_of_isDigit (digits c mem)
  | spelled spells =>
    cases spells with
    | word isWord => exact .bare ((Spells.word isWord).bare rfl)
    | int value => exact .bare ((Spells.int value).bare rfl)
    | quoted quotes => exact .outside (c := '"') (by decide) (scans_quotes quotes)
    | raw none => exact .outside (c := '\x60') (by decide) (scans_raw none)
    | mark sign =>
      cases sign <;> constructor <;>
        simp [Mark.text, beforeComment, balanceFrom, Quoting.step, Quoting.isQuote, braceWeight,
          Token.weight]

/-- Both scans pass over a text that has tokens, and count the braces among them. -/
theorem Lexed.scans (lexed : Lexed toks text) : Scans .outside text (braces toks) := by
  induction lexed with
  | nil blank => exact .blank blank
  | cons blank lexeme _ _ ih =>
    have scans := (Scans.blank blank).append (lexeme.scans.append ih)
    rwa [Int.zero_add] at scans

theorem Lexed.beforeComment_eq (lexed : Lexed toks text) : beforeComment .outside text = text := by
  simpa [beforeComment] using lexed.scans.comment []

theorem Lexed.braceBalance_eq (lexed : Lexed toks text) : braceBalance text = braces toks := by
  simpa [braceBalance, balanceFrom] using lexed.scans.balance []

/-! ## Bytes -/

/-- The bytes of a character in UTF-8, each as the character with that code. -/
def octets (c : Char) : List Char :=
  (String.utf8EncodeChar c).map Char.ofUInt8

/-- The bytes of a text. -/
def utf8 (text : List Char) : List Char :=
  text.flatMap octets

theorem utf8_cons (c : Char) (text : List Char) : utf8 (c :: text) = octets c ++ utf8 text :=
  List.flatMap_cons

theorem toNat_ofUInt8 (byte : UInt8) : (Char.ofUInt8 byte).toNat = byte.toNat :=
  UInt8.toNat_toUInt32 byte

theorem octets_ascii (ascii : c.toNat < 128) : octets c = [c] := by
  have single : String.utf8EncodeChar c = [UInt8.ofNat c.toNat] := if_pos (Nat.le_of_lt_succ ascii)
  rw [octets, single, List.map_singleton, List.singleton_inj, ← Char.toNat_inj, toNat_ofUInt8,
    UInt8.toNat_ofNat']
  omega

/-- No byte of a character beyond ASCII is in ASCII. -/
theorem octets_high (high : 128 ≤ c.toNat) :
    octets c ≠ [] ∧ ∀ byte ∈ octets c, 128 ≤ byte.toNat := by
  have code : c.val.toNat = c.toNat := rfl
  unfold octets String.utf8EncodeChar
  dsimp only
  rw [if_neg (by omega)]
  split
  · simp [toNat_ofUInt8]
    omega
  split
  · simp [toNat_ofUInt8]
    omega
  · simp [toNat_ofUInt8]
    omega

namespace Quoting

/-- The quote of the literal that a scan is within is in ASCII. -/
def isAscii : Quoting → Bool
  | .outside => true
  | .inside quote | .escaped quote => quote.toNat < 128

/-- Where a scan stands after a character that it does not look for. -/
def resume : Quoting → Quoting
  | .escaped quote => .inside quote
  | state => state

theorem isAscii_step (ascii : state.isAscii = true) (c : Char) : (state.step c).isAscii = true := by
  cases state with
  | escaped quote => exact ascii
  | outside =>
    rw [step]
    split
    · next quote =>
      simp only [isQuote, Bool.or_eq_true, beq_iff_eq] at quote
      obtain (rfl | rfl) | rfl := quote <;> rfl
    · rfl
  | inside quote =>
    rw [step]
    split
    · exact ascii
    split
    · rfl
    · exact ascii

theorem step_high (ascii : state.isAscii = true) (high : 128 ≤ c.toNat) :
    state.step c = state.resume := by
  have other : ∀ d : Char, d.toNat < 128 → c ≠ d := by
    rintro d low rfl
    omega
  cases state with
  | escaped quote => rfl
  | outside =>
    have plain : isQuote c = false := by
      simp [isQuote, other '"' (by decide), other '\x60' (by decide), other '\'' (by decide)]
    rw [step, plain]
    rfl
  | inside quote =>
    rw [step, if_neg fun escape => other '\\' (by decide) escape.1,
      if_neg (other quote (of_decide_eq_true ascii))]
    rfl

theorem resume_resume (state : Quoting) : state.resume.resume = state.resume := by
  cases state <;> rfl

end Quoting

theorem beforeComment_high (ascii : state.isAscii = true) {bytes : List Char} (some : bytes ≠ [])
    (high : ∀ byte ∈ bytes, 128 ≤ byte.toNat) (rest : List Char) :
    beforeComment state (bytes ++ rest) = bytes ++ beforeComment state.resume rest := by
  induction bytes generalizing state with
  | nil => exact absurd rfl some
  | cons byte bytes ih =>
    obtain ⟨first, high⟩ := List.forall_mem_cons.1 high
    have step := Quoting.step_high ascii first
    have slash : byte ≠ '/' := by
      rintro rfl
      exact absurd first (by decide)
    rw [List.cons_append, beforeComment, if_neg fun start => slash start.2.1]
    cases bytes with
    | nil => rw [step]; rfl
    | cons next bytes =>
      rw [ih (Quoting.isAscii_step ascii byte) (List.cons_ne_nil _ _) high, step,
        Quoting.resume_resume]
      rfl

theorem head?_utf8 : (utf8 text).head? = some '/' ↔ text.head? = some '/' := by
  cases text with
  | nil => exact Iff.rfl
  | cons c text =>
    rw [utf8_cons]
    by_cases ascii : c.toNat < 128
    · rw [octets_ascii ascii]
      exact Iff.rfl
    · obtain ⟨some, high⟩ := octets_high (Nat.not_lt.1 ascii)
      obtain ⟨byte, bytes, whole⟩ := List.exists_cons_of_ne_nil some
      have first := high byte (whole ▸ List.mem_cons_self)
      rw [whole, List.cons_append, List.head?_cons, List.head?_cons, Option.some.injEq,
        Option.some.injEq]
      constructor
      · rintro rfl
        exact absurd first (by decide)
      · rintro rfl
        exact absurd (by decide) ascii

/-- The scan for a comment stops at the same place in the bytes of a line. -/
theorem beforeComment_utf8 (text : List Char) (ascii : state.isAscii = true) :
    beforeComment state (utf8 text) = utf8 (beforeComment state text) := by
  induction text generalizing state with
  | nil => rfl
  | cons c text ih =>
    have ih := ih (Quoting.isAscii_step ascii c)
    by_cases low : c.toNat < 128
    · rw [utf8_cons, octets_ascii low, List.singleton_append, beforeComment, beforeComment, ih]
      simp only [head?_utf8]
      split
      · rfl
      · rw [utf8_cons, octets_ascii low, List.singleton_append]
    · obtain ⟨some, high⟩ := octets_high (Nat.not_lt.1 low)
      have slash : c ≠ '/' := by
        rintro rfl
        exact absurd (by decide) low
      have step := Quoting.step_high ascii (Nat.not_lt.1 low)
      rw [beforeComment, if_neg fun start => slash start.2.1, utf8_cons, utf8_cons, ← ih, step,
        beforeComment_high ascii some high]

/-! ## Agreement -/

/-- The scans of a line agree with its tokens: where a text has tokens, a comment after it is
found and none within it, in its characters and in its bytes, and the braces that are counted are
those among its tokens. -/
theorem scans_agree (read : tokens text = .ok toks) :
    (∀ comment, stripComment (text ++ '/' :: '/' :: comment) = trimEnd text ∧
      beforeComment .outside (utf8 (text ++ '/' :: '/' :: comment)) = utf8 text) ∧
    stripComment text = trimEnd text ∧
    braceBalance text = toks.count (.mark .lbrace) - toks.count (.mark .rbrace) := by
  have lexed := tokens_eq_ok_iff.1 read
  have passed : ∀ comment,
      beforeComment .outside (text ++ '/' :: '/' :: comment) = text := by
    intro comment
    rw [lexed.scans.comment, beforeComment, if_pos ⟨rfl, rfl, rfl⟩, List.append_nil]
  refine ⟨fun comment => ⟨?_, ?_⟩, ?_, ?_⟩
  · rw [stripComment, passed comment]
  · rw [beforeComment_utf8 _ rfl, passed comment]
  · rw [stripComment, lexed.beforeComment_eq]
  · rw [lexed.braceBalance_eq, braces_eq_count]

/-- A text with literals that hold braces, marks of a comment and a quote. -/
theorem scans_agree_quoted :
    let text := "f \x7b \"// \\\" \x7b é\" \x60 \x7d // \x60 \x7d \x7b ".toList
    let toks : List Token := [.word "f", .mark .lbrace, .literal "// \" \x7b é",
      .literal " \x7d // ", .mark .rbrace, .mark .lbrace]
    tokens text = .ok toks ∧ stripComment (text ++ "// é".toList) = trimEnd text ∧
      beforeComment .outside (utf8 (text ++ "// é".toList)) = utf8 text ∧
      braceBalance text = 1 := by
  intro text toks
  have read : tokens text = .ok toks := by decide +kernel
  obtain ⟨commented, -, balance⟩ := scans_agree read
  obtain ⟨characters, bytes⟩ := commented " é".toList
  exact ⟨read, characters, bytes, balance⟩

end GoAtlas.Source
