import GoAtlas.Toml

/-!
# TOML words

Flags, numbers, dates and times are words: runs of letters, digits and the marks
`+ - _ . :`. A date and a time may be divided by a single space.
-/

namespace GoAtlas.Toml

/-- A digit of a number in some base, and its value. -/
abbrev Digits := Char → Option Nat

/-- The digits below ten. -/
def decimal : Digits := fun c =>
  if c.isDigit then some (c.toNat - '0'.toNat) else none

/-- The digits below sixteen. -/
def hexadecimal : Digits := fun c =>
  if 'a' ≤ c && c ≤ 'f' then some (c.toNat - 'a'.toNat + 10)
  else if 'A' ≤ c && c ≤ 'F' then some (c.toNat - 'A'.toNat + 10)
  else decimal c

/-- The digits below eight. -/
def octal : Digits := fun c =>
  if '0' ≤ c && c ≤ '7' then some (c.toNat - '0'.toNat) else none

/-- The digits below two. -/
def binary : Digits := fun c =>
  if c = '0' then some 0 else if c = '1' then some 1 else none

/-- The values of a run of digits. A `_` may stand between two of them. -/
def digitValues (digits : Digits) : List Char → Option (List Nat)
  | [] => none
  | [c] => (digits c).map fun value => [value]
  | c :: '_' :: rest => do
    let value ← digits c
    return value :: (← digitValues digits rest)
  | c :: rest => do
    let value ← digits c
    return value :: (← digitValues digits rest)

/-- The number with the given digits. -/
def ofDigits (base : Nat) (values : List Nat) : Nat :=
  values.foldl (fun number value => number * base + value) 0

/-- A word without its sign; the sign is kept as whether it is `-`. -/
def splitSign : List Char → Bool × List Char
  | '+' :: rest => (false, rest)
  | '-' :: rest => (true, rest)
  | word => (false, word)

/-- The digits of a whole number, which starts with `0` only if that is all. -/
def wholeDigits : List Char → Option (List Nat)
  | ['0'] => some [0]
  | '0' :: _ => none
  | word => digitValues decimal word

/-- Whole numbers have 64 bits. -/
def inRange (value : Int) : Option Int :=
  if -9223372036854775808 ≤ value ∧ value ≤ 9223372036854775807 then some value else none

/-- The whole number a word stands for. -/
def integer? : List Char → Option Int
  | '0' :: 'x' :: rest =>
    (digitValues hexadecimal rest).bind fun values => inRange (ofDigits 16 values)
  | '0' :: 'o' :: rest => (digitValues octal rest).bind fun values => inRange (ofDigits 8 values)
  | '0' :: 'b' :: rest => (digitValues binary rest).bind fun values => inRange (ofDigits 2 values)
  | word => do
    let (negative, rest) := splitSign word
    let number : Nat := ofDigits 10 (← wholeDigits rest)
    inRange (if negative then -number else number)

/-- The exponent after an `e`, zero where there is none. -/
def exponent? : List Char → Option Int
  | [] => some 0
  | mark :: rest =>
    if mark = 'e' ∨ mark = 'E' then do
      let (negative, rest) := splitSign rest
      let number : Nat := ofDigits 10 (← digitValues decimal rest)
      return if negative then -number else number
    else none

/-- Half a unit above the largest number of 64 bits with a fraction: what is not
below this has no such number near it. -/
def floatBound : Nat :=
  Nat.pow 2 1024 - Nat.pow 2 970

/-- The number `digits * 10 ^ scale` is too large for 64 bits. -/
def isTooLarge (digits : List Nat) (scale : Int) : Bool :=
  let digits := digits.dropWhile (· == 0)
  let places := digits.length + scale
  if digits.isEmpty || places < 300 then false
  else if 320 < places then true
  else if 0 ≤ scale then floatBound ≤ ofDigits 10 digits * Nat.pow 10 scale.toNat
  else floatBound * Nat.pow 10 (-scale).toNat ≤ ofDigits 10 digits

/-- The word is a number with a fraction or an exponent, or one of the names for
what is no number. A number that is too large has to be negative. -/
def isFloat (word : List Char) : Bool :=
  let (negative, rest) := splitSign word
  let divides (c : Char) : Bool := c == '.' || c == 'e' || c == 'E'
  let finite (whole fraction : List Nat) (exponent : Option Int) : Bool :=
    exponent.any fun exponent =>
      negative || !isTooLarge (whole ++ fraction) (exponent - fraction.length)
  if rest = "inf".toList ∨ rest = "nan".toList then true
  else
    match wholeDigits (rest.takeWhile fun c => !divides c), rest.dropWhile fun c => !divides c with
    | some whole, '.' :: rest =>
      let isFraction (c : Char) : Bool := !(c == 'e' || c == 'E')
      (digitValues decimal (rest.takeWhile isFraction)).any fun fraction =>
        finite whole fraction (exponent? (rest.dropWhile isFraction))
    | some whole, mark :: rest => finite whole [] (exponent? (mark :: rest))
    | _, _ => false

/-- The number of two digits, when it is within bounds. -/
def twoDigits (low high : Nat) (a b : Char) : Option Nat := do
  let value := 10 * (← decimal a) + (← decimal b)
  if low ≤ value ∧ value ≤ high then some value else none

/-- The days of a month. -/
def daysIn (year month : Nat) : Nat :=
  if month = 2 then
    if year % 4 = 0 ∧ (year % 100 ≠ 0 ∨ year % 400 = 0) then 29 else 28
  else if month = 4 ∨ month = 6 ∨ month = 9 ∨ month = 11 then 30
  else 31

/-- What follows the date that a word starts with. -/
def afterDate? : List Char → Option (List Char)
  | y1 :: y2 :: y3 :: y4 :: '-' :: m1 :: m2 :: '-' :: d1 :: d2 :: rest => do
    let year := ofDigits 10 (← [y1, y2, y3, y4].mapM decimal)
    let month ← twoDigits 1 12 m1 m2
    let _ ← twoDigits 1 (daysIn year month) d1 d2
    return rest
  | _ => none

/-- What follows the time of day that a word starts with. -/
def afterTime? : List Char → Option (List Char)
  | h1 :: h2 :: ':' :: m1 :: m2 :: ':' :: s1 :: s2 :: rest => do
    let _ ← twoDigits 0 23 h1 h2
    let _ ← twoDigits 0 59 m1 m2
    let _ ← twoDigits 0 60 s1 s2
    match rest with
    | '.' :: fraction =>
      if (fraction.head?.bind decimal).isSome then some (fraction.dropWhile Char.isDigit) else none
    | rest => some rest
  | _ => none

/-- The word is the distance to universal time. -/
def isOffset : List Char → Bool
  | ['Z'] | ['z'] => true
  | [sign, h1, h2, ':', m1, m2] =>
    (sign == '+' || sign == '-') && (twoDigits 0 23 h1 h2).isSome && (twoDigits 0 59 m1 m2).isSome
  | _ => false

/-- The word is a date, a time of day or both, these with an offset or without. -/
def isTime (word : List Char) : Bool :=
  match afterDate? word with
  | some [] => true
  | some (mark :: rest) =>
    (mark == 'T' || mark == 't' || mark == ' ') &&
      (afterTime? rest).any fun rest => rest.isEmpty || isOffset rest
  | none => afterTime? word == some []

/-- The value a word stands for. -/
def ofWord? (word : List Char) : Option Value :=
  if word = "true".toList then some (.flag true)
  else if word = "false".toList then some (.flag false)
  else
    match integer? word with
    | some value => some (.integer value)
    | none =>
      if isFloat word then some (.float (String.ofList word))
      else if isTime word then some (.time (String.ofList word))
      else none

/-- The characters of words. -/
def isWordChar (c : Char) : Bool :=
  c.isAlphanum || c == '+' || c == '-' || c == '_' || c == '.' || c == ':'

/-- The word at the front of a text. A date goes on with the time after it. -/
def word (input : List Char) : List Char × List Char :=
  let first := input.takeWhile isWordChar
  let rest := input.dropWhile isWordChar
  match rest with
  | ' ' :: c :: after =>
    if afterDate? first = some [] ∧ c.isDigit then
      (first ++ ' ' :: (c :: after).takeWhile isWordChar, (c :: after).dropWhile isWordChar)
    else (first, rest)
  | _ => (first, rest)

end GoAtlas.Toml
