import GoAtlas.Text.Quoted

/-!
# Quoted text reads back

A text between double quotes can be read back, whatever follows the closing
quote. An escape starts with a backslash and says by its second character how
far it goes; no other character is written as a backslash or as the quote. So
two quoted texts that start one longer text are the same text.
-/

namespace GoAtlas.Text

/-- The value of a hexadecimal digit in lower case. -/
def hexDigitValue (c : Char) : Nat :=
  if c.isDigit then c.toNat - '0'.toNat else c.toNat - 'a'.toNat + 10

/-- The number a run of hexadecimal digits spells. -/
def hexValue (digits : List Char) : Nat :=
  digits.foldl (fun value digit => value * 16 + hexDigitValue digit) 0

theorem hexDigitValue_hexDigit : ∀ n < 16, hexDigitValue (hexDigit n) = n := by
  decide

theorem hexDigit_ne_brace : ∀ n < 16, hexDigit n ≠ '\x7d' := by
  decide

theorem hexValue_hexDigits (n : Nat) : hexValue (hexDigits n) = n := by
  fun_induction hexDigits n with
  | case1 n lt => simp [hexValue, hexDigitValue_hexDigit n lt]
  | case2 n ge ih =>
    have last := hexDigitValue_hexDigit (n % 16) (Nat.mod_lt _ (by decide))
    rw [hexValue] at ih ⊢
    rw [List.foldl_append, ih, List.foldl_cons, List.foldl_nil, last]
    omega

theorem ne_brace_of_mem_hexDigits {n : Nat} : ∀ c ∈ hexDigits n, (c != '\x7d') = true := by
  fun_induction hexDigits n with
  | case1 n lt =>
    intro c mem
    rw [List.mem_singleton.1 mem]
    exact bne_iff_ne.2 (hexDigit_ne_brace n lt)
  | case2 n ge ih =>
    intro c mem
    rcases List.mem_append.1 mem with mem | mem
    · exact ih c mem
    · rw [List.mem_singleton.1 mem]
      exact bne_iff_ne.2 (hexDigit_ne_brace (n % 16) (Nat.mod_lt _ (by decide)))

/-- The first character of a quoted text, and what follows it. -/
def unescaped? : List Char → Option (Char × List Char)
  | '\\' :: 'u' :: '\x7b' :: rest =>
    some (Char.ofNat (hexValue (rest.takeWhile (· != '\x7d'))),
      (rest.dropWhile (· != '\x7d')).tail)
  | '\\' :: '0' :: rest => some ('\x00', rest)
  | '\\' :: 't' :: rest => some ('\t', rest)
  | '\\' :: 'r' :: rest => some ('\r', rest)
  | '\\' :: 'n' :: rest => some ('\n', rest)
  | '\\' :: c :: rest => some (c, rest)
  | c :: rest => some (c, rest)
  | [] => none

theorem unescaped?_escaped (c : Char) (rest : List Char) :
    unescaped? (escaped '"' c ++ rest) = some (c, rest) := by
  unfold escaped
  split
  · next eq => subst eq; rfl
  split
  · next eq => subst eq; rfl
  split
  · next eq => subst eq; rfl
  split
  · next eq => subst eq; rfl
  split
  · next eq => subst eq; rfl
  · next backslash =>
    split
    · next eq => subst eq; rfl
    split
    · -- the digits end at the closing brace
      have digits := @ne_brace_of_mem_hexDigits c.toNat
      have stop : ∀ tail : List Char, ('\x7d' :: tail).takeWhile (· != '\x7d') = [] :=
        fun _ => rfl
      simp only [List.cons_append, List.nil_append, List.append_assoc, unescaped?]
      rw [List.takeWhile_append_of_pos digits, List.dropWhile_append_of_pos digits, stop,
        List.append_nil, hexValue_hexDigits]
      simp
    · simp only [List.cons_append, List.nil_append]
      unfold unescaped?
      split <;> simp_all

/-- No character is written with a quote in front. -/
theorem head?_escaped (c : Char) (rest : List Char) :
    (escaped '"' c ++ rest).head? ≠ some '"' := by
  unfold escaped
  repeat (split; · simp)
  simpa using ‹¬c = '"'›

/-- The text up to the closing quote, and what follows it. The text is shorter
than `fuel`. -/
def readQuoted : Nat → List Char → Option (List Char × List Char)
  | 0, _ => none
  | fuel + 1, text =>
    if text.head? = some '"' then some ([], text.tail)
    else
      (unescaped? text).bind fun (c, rest) =>
        (readQuoted fuel rest).map fun (text, rest) => (c :: text, rest)

/-- A quoted text reads back, whatever follows it. -/
theorem readQuoted_escapedText (text rest : List Char) (fuel : Nat) (enough : text.length < fuel) :
    readQuoted fuel (escapedText '"' text ++ '"' :: rest) = some (text, rest) := by
  induction text generalizing fuel with
  | nil =>
    cases fuel with
    | zero => cases enough
    | succ fuel => rfl
  | cons c tail ih =>
    cases fuel with
    | zero => cases enough
    | succ fuel =>
      have written : escapedText '"' (c :: tail) ++ '"' :: rest =
          escaped '"' c ++ (escapedText '"' tail ++ '"' :: rest) := by
        simp [escapedText]
      rw [written, readQuoted, if_neg (head?_escaped c _), unescaped?_escaped, Option.bind_some]
      simp only [ih fuel (by simpa using enough), Option.map_some]

theorem escaped_ne_nil (quote c : Char) : escaped quote c ≠ [] := by
  unfold escaped
  repeat (split; · simp)
  simp

/-- Escaping makes a text no shorter. -/
theorem length_le_escapedText (quote : Char) (text : List Char) :
    text.length ≤ (escapedText quote text).length := by
  induction text with
  | nil => exact Nat.zero_le _
  | cons c tail ih =>
    have one := List.length_pos_iff.2 (escaped_ne_nil quote c)
    rw [escapedText] at ih ⊢
    rw [List.flatMap_cons, List.length_append, List.length_cons]
    omega

end GoAtlas.Text
