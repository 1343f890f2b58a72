import GoAtlas.Text.Concealed

/-!
# Quoted text

Messages and descriptions show a text between quotes. The backslash, the quote
itself and the four common controls have escapes of two characters; a concealed
character is spelled by its code point, `\u{…}`; every other character stands
for itself. A text is quoted by `"` and leaves `'` alone, a single character is
quoted by `'` and leaves `"` alone.
-/

namespace GoAtlas.Text

/-- The digit of a value below sixteen, in lower case. -/
def hexDigit (n : Nat) : Char :=
  if n < 10 then Char.ofNat ('0'.toNat + n) else Char.ofNat ('a'.toNat + (n - 10))

/-- Hexadecimal digits without leading zeros. -/
def hexDigits (n : Nat) : List Char :=
  if n < 16 then [hexDigit n] else hexDigits (n / 16) ++ [hexDigit (n % 16)]
termination_by n

/-- One character as it stands between two `quote` characters. -/
def escaped (quote : Char) (c : Char) : List Char :=
  if c = '\x00' then ['\\', '0']
  else if c = '\t' then ['\\', 't']
  else if c = '\r' then ['\\', 'r']
  else if c = '\n' then ['\\', 'n']
  else if c = '\\' then ['\\', '\\']
  else if c = quote then ['\\', quote]
  else if isConcealed c then ['\\', 'u', '\x7b'] ++ hexDigits c.toNat ++ ['\x7d']
  else [c]

/-- The characters between the quotes. -/
def escapedText (quote : Char) (text : List Char) : List Char :=
  text.flatMap (escaped quote)

/-- A text between double quotes. -/
def quoted (text : String) : String :=
  String.ofList ('"' :: escapedText '"' text.toList ++ ['"'])

/-- A character between single quotes. -/
def quotedChar (c : Char) : String :=
  String.ofList ('\'' :: escaped '\'' c ++ ['\''])

/-- A list of quoted texts between brackets. -/
def quotedList (texts : List String) : String :=
  "[" ++ String.intercalate ", " (texts.map quoted) ++ "]"

end GoAtlas.Text
