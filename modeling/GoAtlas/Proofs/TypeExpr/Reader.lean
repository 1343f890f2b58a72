import GoAtlas.Proofs.Text.Quoted
import GoAtlas.Proofs.TypeExpr.Spelling

/-!
# Descriptions read back

The description of a type can be read back: `readType` recovers the type from
its description and from whatever follows it, up to what a description leaves
out. A type says by its first characters what it is, and its end shows in the
character after it (`Ends`): a word never goes on after a complete type, and a
blank after a complete type announces a tag. So canonical names are equal
exactly where types are (`canonicalName_eq_iff`).
-/

namespace GoAtlas.Description

open Text Source

variable (primitives : String → Bool)
variable {rest word text tail : List Char} {type : TypeExpr} {package : String} {c : Char}

/-! ## The reader -/

/-- The named type a word stands for: what follows the last dot is its name. -/
def ofWord (word : List Char) : TypeExpr :=
  let name := String.ofList (word.reverse.takeWhile (· != '.')).reverse
  match word.reverse.dropWhile (· != '.') with
  | [] => if primitives name then .basic name else .named "" name
  | _ :: package => .named (String.ofList package.reverse) name

/-- The tag of a field, if there is one, and what follows it. -/
def readTag (text : List Char) : Option (String × List Char) :=
  if text.take 2 = [' ', '"'] then
    (readQuoted text.length (text.drop 2)).map fun (tag, rest) => (String.ofList tag, rest)
  else some ("", text)

mutual

/-- The type a text starts with, and what follows it. Marks that the type says
must come are passed over unread. -/
def readType : Nat → List Char → Option (TypeExpr × List Char)
  | 0, _ => none
  | fuel + 1, text =>
    match text with
    | '*' :: rest => do
      let (elem, rest) ← readType fuel rest
      return (.pointer elem, rest)
    | '[' :: ']' :: rest => do
      let (elem, rest) ← readType fuel rest
      return (.slice elem, rest)
    | '[' :: rest => do
      let digits := rest.takeWhile Char.isDigit
      let (elem, rest) ← readType fuel (rest.dropWhile Char.isDigit).tail
      return (.array (.ofNat (Nat.ofDigitChars 10 digits 0)) elem, rest)
    | '<' :: rest => do
      let (elem, rest) ← readType fuel (rest.drop 6)
      return (.chan .receive elem, rest)
    | text => do
      let word := text.takeWhile isPathChar
      let rest := text.dropWhile isPathChar
      if word = "chan".toList then
        let direction := if rest.head? = some ' ' then Direction.both else .send
        let (elem, rest) ← readType fuel (rest.drop (if rest.head? = some ' ' then 1 else 3))
        return (.chan direction elem, rest)
      else if word = "map".toList then
        let (key, rest) ← readType fuel rest.tail
        let (elem, rest) ← readType fuel rest.tail
        return (.map key elem, rest)
      else if word = "struct".toList then
        let (fields, rest) ← readFields fuel rest.tail
        return (.struct fields, rest)
      else if word = "func".toList then
        let (signature, rest) ← readSignature fuel rest
        return (.func signature, rest)
      else if word = "interface".toList then
        let (methods, rest) ← readMethods fuel rest.tail
        return (.interface methods, rest)
      else return (ofWord primitives word, rest)

/-- The types up to a closing parenthesis, and whether the last one takes the
rest of the arguments. -/
def readList : Nat → List Char → Option ((List TypeExpr × Bool) × List Char)
  | 0, _ => none
  | fuel + 1, text =>
    if text.head? = some ')' then return (([], false), text.tail)
    else if text.head? = some '.' then do
      let (elem, rest) ← readType fuel (text.drop 3)
      return (([.slice elem], true), rest.tail)
    else do
      let (first, rest) ← readType fuel text
      if rest.head? = some ')' then return (([first], false), rest.tail)
      else
        let ((others, variadic), rest) ← readList fuel (rest.drop 2)
        return ((first :: others, variadic), rest)

/-- The parameters in parentheses, and the results. -/
def readSignature : Nat → List Char → Option (SignatureExpr × List Char)
  | 0, _ => none
  | fuel + 1, text => do
    let ((params, variadic), rest) ← readList fuel text.tail
    let (results, rest) ← readResults fuel rest
    return (⟨none, params, results, variadic⟩, rest)

/-- The results. A blank comes before them, but also before a tag. -/
def readResults : Nat → List Char → Option (List TypeExpr × List Char)
  | 0, _ => none
  | fuel + 1, text =>
    if text.take 2 = [' ', '('] then do
      let ((results, _), rest) ← readList fuel (text.drop 2)
      return (results, rest)
    else if text.head? = some ' ' ∧ text.take 2 ≠ [' ', '"'] then do
      let (result, rest) ← readType fuel text.tail
      return ([result], rest)
    else return ([], text)

/-- A field with its tag. A word with a blank after it is the name of the field,
unless a tag follows. -/
def readField : Nat → List Char → Option (FieldExpr × List Char)
  | 0, _ => none
  | fuel + 1, text => do
    let word := text.takeWhile isPathChar
    let after := text.dropWhile isPathChar
    if after.head? = some ' ' ∧ after.take 2 ≠ [' ', '"'] then
      let (type, rest) ← readType fuel after.tail
      let (tag, rest) ← readTag rest
      return (⟨String.ofList word, false, tag, type, none⟩, rest)
    else
      let (type, rest) ← readType fuel text
      let (tag, rest) ← readTag rest
      return (⟨"", true, tag, type, none⟩, rest)

/-- The fields up to a closing brace. -/
def readFields : Nat → List Char → Option (List FieldExpr × List Char)
  | 0, _ => none
  | fuel + 1, text => do
    if text.head? = some '\x7d' then return ([], text.tail)
    else
      let (first, rest) ← readField fuel text
      if rest.head? = some '\x7d' then return ([first], rest.tail)
      else
        let (others, rest) ← readFields fuel (rest.drop 2)
        return (first :: others, rest)

/-- A method: a word and a signature. -/
def readMethod : Nat → List Char → Option (MethodExpr × List Char)
  | 0, _ => none
  | fuel + 1, text => do
    let (signature, rest) ← readSignature fuel (text.dropWhile isPathChar)
    return (⟨String.ofList (text.takeWhile isPathChar), none, signature⟩, rest)

/-- The methods up to a closing brace. -/
def readMethods : Nat → List Char → Option (List MethodExpr × List Char)
  | 0, _ => none
  | fuel + 1, text => do
    if text.head? = some '\x7d' then return ([], text.tail)
    else
      let (first, rest) ← readMethod fuel text
      if rest.head? = some '\x7d' then return ([first], rest.tail)
      else
        let (others, rest) ← readMethods fuel (rest.drop 2)
        return (first :: others, rest)

end

/-! ## Where a type ends -/

/-- What may follow a complete type: nothing, a closing mark, a comma or a
semicolon, or a tag. -/
def Ends : List Char → Prop
  | [] => True
  | ' ' :: rest => rest.head? = some '"'
  | c :: _ => c ∈ [',', ')', ']', ';', '\x7d']

/-- No word goes on with the text. -/
def Stops (text : List Char) : Prop :=
  ∀ c, text.head? = some c → isPathChar c = false

theorem Ends.stops (h : Ends rest) : Stops rest := by
  intro c hc
  unfold Ends at h
  split at h
  · cases hc
  · cases hc
    decide
  · cases hc
    simp only [List.mem_cons, List.not_mem_nil, or_false] at h
    rcases h with rfl | rfl | rfl | rfl | rfl <;> decide

theorem Stops.cons {c : Char} (h : isPathChar c = false) (rest : List Char) :
    Stops (c :: rest) := by
  intro _ hc
  cases hc
  exact h

/-- After a complete type a blank announces a tag. -/
theorem Ends.tag {rest : List Char} (h : Ends rest) (blank : rest.head? = some ' ') :
    rest.take 2 = [' ', '"'] := by
  unfold Ends at h
  split at h
  · cases blank
  · next tail =>
    cases tail with
    | nil => cases h
    | cons c tail =>
      cases h
      rfl
  · next c tail other =>
    cases blank
    exact absurd rfl other

theorem takeWhile_append_stop {p : Char → Bool} (hw : ∀ c ∈ word, p c = true)
    (hr : ∀ c, rest.head? = some c → p c = false) : (word ++ rest).takeWhile p = word := by
  rw [List.takeWhile_append_of_pos hw]
  cases rest with
  | nil => simp
  | cons c tail => simp [hr c rfl]

theorem dropWhile_append_stop {p : Char → Bool} (hw : ∀ c ∈ word, p c = true)
    (hr : ∀ c, rest.head? = some c → p c = false) : (word ++ rest).dropWhile p = rest := by
  rw [List.dropWhile_append_of_pos hw]
  cases rest with
  | nil => rfl
  | cons c tail => simp [hr c rfl]

/-- A qualified name falls apart at its last dot. -/
theorem ofWord_qualified {name : String} (hn : isName name = true) :
    ofWord primitives (qualified package name) =
      if package = "" ∧ primitives name = true then .basic name else .named package name := by
  have stop : ∀ tail : List Char, ∀ c, ('.' :: tail).head? = some c → (c != '.') = false := by
    intro tail c hc
    cases hc
    rfl
  have none : ∀ c : Char, ([] : List Char).head? = some c → (c != '.') = false := by
    intro c hc
    cases hc
  unfold ofWord qualified
  by_cases h : package = ""
  · have take := takeWhile_append_stop (dot_not_mem_name hn) none
    have drop := dropWhile_append_stop (dot_not_mem_name hn) none
    rw [List.append_nil] at take drop
    simp only [h, if_true, take, drop, List.reverse_reverse, String.ofList_toList, true_and]
  · simp only [h, if_false, false_and, List.reverse_append, List.reverse_cons, List.append_assoc,
      List.singleton_append]
    rw [takeWhile_append_stop (dot_not_mem_name hn) (stop _),
      dropWhile_append_stop (dot_not_mem_name hn) (stop _)]
    simp

/-! ## One step of the reader -/

theorem describeLast_false (type : TypeExpr) : type.describeLast false = type.describe := by
  cases type <;> rfl

/-- A single result stands alone, or in parentheses. -/
theorem describeResult_cases (type : TypeExpr) :
    type.describeResult = " " ++ type.describe ∨
      type.describeResult = " (" ++ type.describe ++ ")" := by
  cases type with
  | func signature =>
    refine .inr ?_
    simp only [TypeExpr.describeResult, TypeExpr.describe, ← String.append_assoc]
    rfl
  | _ => exact .inl rfl

theorem readType_qualified {name : String} (hn : isName name = true) (hp : isPath package = true)
    (stops : Stops rest) (fuel : Nat) :
    readType primitives (fuel + 1) (qualified package name ++ rest) =
      some (ofWord primitives (qualified package name), rest) := by
  have word := isPathChar_qualified hn hp
  have take := takeWhile_append_stop word stops
  have drop := dropWhile_append_stop word stops
  obtain ⟨c, tail, text⟩ := @qualified_ne_nil package name hn
  have first : isPathChar c = true := word c (text ▸ List.mem_cons_self)
  have keyword : ∀ keyword ∈ keywords, '.' ∉ keyword.toList → ¬ c :: tail = keyword.toList :=
    fun keyword mem plain eq => qualified_ne_keyword hn mem plain (text.trans eq)
  -- the first character is none of the marks a type may start with
  have mark : ∀ (d : Char) (other : List Char), isPathChar d = false →
      c :: (tail ++ rest) = d :: other → False := by
    intro d other hd eq
    cases eq
    rw [first] at hd
    cases hd
  rw [text, List.cons_append] at take drop ⊢
  rw [readType, take, drop]
  · rw [if_neg (keyword "chan" (by decide) (by decide)),
      if_neg (keyword "map" (by decide) (by decide)),
      if_neg (keyword "struct" (by decide) (by decide)),
      if_neg (keyword "func" (by decide) (by decide)),
      if_neg (keyword "interface" (by decide) (by decide))]
    rfl
  · exact fun other => mark '*' other (by decide)
  · exact fun other => mark '[' (']' :: other) (by decide)
  · exact fun other => mark '[' other (by decide)
  · exact fun other => mark '<' other (by decide)

/-- The text after the type of a field. -/
def tagText (tag : String) : List Char :=
  (if tag.isEmpty then "" else " " ++ quoted tag).toList

/-- A tag reads back; without a tag nothing is read. -/
theorem readTag_quoted (tag : String) (rest : List Char) (ends : rest.head? ≠ some ' ') :
    readTag (tagText tag ++ rest) = some (tag, rest) := by
  unfold tagText
  by_cases h : tag = ""
  · have blank : rest.take 2 ≠ [' ', '"'] := by
      intro eq
      cases rest with
      | nil => cases eq
      | cons c tail =>
        simp only [List.take_succ_cons, List.cons.injEq] at eq
        exact ends (by rw [eq.1]; rfl)
    simp [h, readTag, blank]
  · have nonempty : tag.isEmpty = false := by simpa using h
    have text : (" " ++ quoted tag).toList ++ rest =
        ' ' :: '"' :: (escapedText '"' tag.toList ++ '"' :: rest) := by
      simp [quoted]
    rw [nonempty, if_neg Bool.false_ne_true, text, readTag]
    have read := readQuoted_escapedText tag.toList rest
      (' ' :: '"' :: (escapedText '"' tag.toList ++ '"' :: rest)).length (by
        have := length_le_escapedText '"' tag.toList
        simp
        omega)
    simp only [List.take_succ_cons, List.take_zero, if_true, List.drop_succ_cons, List.drop_zero,
      read, Option.map_some, String.ofList_toList]

theorem readType_chan (direction : Direction) (fuel : Nat) (rest : List Char) :
    readType primitives (fuel + 1) (direction.text.toList ++ rest) = (do
      let (elem, rest) ← readType primitives fuel rest
      return (.chan direction elem, rest)) := by
  cases direction <;> rfl

theorem readType_map (fuel : Nat) (rest : List Char) :
    readType primitives (fuel + 1) ("map[".toList ++ rest) = (do
      let (key, rest) ← readType primitives fuel rest
      let (elem, rest) ← readType primitives fuel rest.tail
      return (.map key elem, rest)) := rfl

theorem readType_struct (fuel : Nat) (rest : List Char) :
    readType primitives (fuel + 1) ("struct\x7b".toList ++ rest) = (do
      let (fields, rest) ← readFields primitives fuel rest
      return (.struct fields, rest)) := rfl

theorem readType_func (fuel : Nat) (rest : List Char) :
    readType primitives (fuel + 1) ("func(".toList ++ rest) = (do
      let (signature, rest) ← readSignature primitives fuel ('(' :: rest)
      return (.func signature, rest)) := rfl

theorem readType_interface (fuel : Nat) (rest : List Char) :
    readType primitives (fuel + 1) ("interface\x7b".toList ++ rest) = (do
      let (methods, rest) ← readMethods primitives fuel rest
      return (.interface methods, rest)) := rfl

/-- The digits between brackets are the length of an array. -/
theorem readType_array (length : UInt64) (fuel : Nat) (rest : List Char) :
    readType primitives (fuel + 1)
        ('[' :: ((toString length.toNat).toList ++ ']' :: rest)) = (do
      let (elem, rest) ← readType primitives fuel rest
      return (.array length elem, rest)) := by
  have digits : ∀ c ∈ Nat.toDigits 10 length.toNat, c.isDigit = true :=
    fun c mem => Nat.isDigit_of_mem_toDigits (by decide) (by decide) mem
  have stop : ∀ c, (']' :: rest).head? = some c → c.isDigit = false := by
    intro c hc
    cases hc
    decide
  have text : (toString length.toNat).toList = Nat.toDigits 10 length.toNat := by
    rw [Nat.toString_eq_repr, Nat.toList_repr]
  have first : ∀ other : List Char,
      Nat.toDigits 10 length.toNat ++ ']' :: rest = ']' :: other → False := by
    intro other eq
    cases number : Nat.toDigits 10 length.toNat with
    | nil => exact Nat.toDigits_ne_nil number
    | cons d tail =>
      rw [number] at eq
      cases eq
      exact absurd (digits ']' (number ▸ List.mem_cons_self)) (by decide)
  rw [text, readType, takeWhile_append_stop digits stop, dropWhile_append_stop digits stop,
    Nat.ofDigitChars_ten_toDigits, UInt64.ofNat_toNat, List.tail_cons]
  exact first

theorem ends_cons {c : Char} (h : c ∈ [',', ')', ']', ';', '\x7d']) (rest : List Char) :
    Ends (c :: rest) := by
  simp only [List.mem_cons, List.not_mem_nil, or_false] at h
  rcases h with rfl | rfl | rfl | rfl | rfl <;> simp [Ends]

/-- One type before the closing parenthesis. -/
theorem readList_single {fuel : Nat} {text rest : List Char} {type : TypeExpr} {c : Char}
    {tail : List Char} (starts : text = c :: tail) (start : isStart c = true)
    (read : readType primitives fuel (text ++ ')' :: rest) = some (type, ')' :: rest)) :
    readList primitives (fuel + 1) (text ++ ')' :: rest) = some (([type], false), rest) := by
  have close : c ≠ ')' := isStart_ne start (by decide)
  have dot : c ≠ '.' := isStart_ne start (by decide)
  rw [readList, read, starts]
  simp [close, dot]

/-- One type before a comma. -/
theorem readList_cons {fuel : Nat} {others : List Char} {types : List TypeExpr} {variadic : Bool}
    (starts : text = c :: tail) (start : isStart c = true)
    (read : readType primitives fuel (text ++ ',' :: ' ' :: others) =
      some (type, ',' :: ' ' :: others))
    (more : readList primitives fuel others = some ((types, variadic), rest)) :
    readList primitives (fuel + 1) (text ++ ',' :: ' ' :: others) =
      some ((type :: types, variadic), rest) := by
  have close : c ≠ ')' := isStart_ne start (by decide)
  have dot : c ≠ '.' := isStart_ne start (by decide)
  rw [readList, read, starts]
  simp [close, dot, more]

/-- What follows a field's type is its tag or the end of the field. -/
theorem ends_tag (tag : String) (ends : Ends rest) : Ends (tagText tag ++ rest) := by
  unfold tagText
  split
  · exact ends
  · have text : (" " ++ quoted tag).toList ++ rest =
        ' ' :: '"' :: (escapedText '"' tag.toList ++ '"' :: rest) := by
      simp [quoted]
    rw [text]
    rfl

/-- An embedded type is no name with a type after it. -/
theorem embedded_no_name (h : WellSpelled primitives type) (embeddable : isEmbeddable type = true)
    (ends : Ends rest) :
    ¬ (((type.describe.toList ++ rest).dropWhile isPathChar).head? = some ' ' ∧
      ((type.describe.toList ++ rest).dropWhile isPathChar).take 2 ≠ [' ', '"']) := by
  have word : ∀ {package name : String}, isName name = true → isPath package = true →
      ¬ (((qualified package name ++ rest).dropWhile isPathChar).head? = some ' ' ∧
        ((qualified package name ++ rest).dropWhile isPathChar).take 2 ≠ [' ', '"']) := by
    intro package name hn hp
    rw [dropWhile_append_stop (isPathChar_qualified hn hp) ends.stops]
    exact fun ⟨blank, tag⟩ => tag (ends.tag blank)
  have pointer : ∀ elem : TypeExpr,
      (((TypeExpr.pointer elem).describe.toList ++ rest).dropWhile isPathChar).head?
        ≠ some ' ' := by
    intro elem
    have text : (TypeExpr.pointer elem).describe.toList ++ rest =
        '*' :: (elem.describe.toList ++ rest) := by simp [TypeExpr.describe]
    rw [text, List.dropWhile_cons_of_neg (by decide)]
    simp
  unfold isEmbeddable at embeddable
  split at embeddable
  · rw [WellSpelled] at h
    exact @word "" _ h.1 rfl
  · rw [WellSpelled] at h
    rw [describe_named]
    exact word h.1 h.2.1
  · exact fun blank => pointer _ blank.1
  · exact fun blank => pointer _ blank.1
  · cases embeddable

/-! ## The law -/

mutual

/-- A description reads back as the type it describes, less what it leaves out. -/
theorem readType_describe : ∀ type : TypeExpr, WellSpelled primitives type →
    ∀ (fuel : Nat) (rest : List Char), sizeOf type < fuel → Ends rest →
      readType primitives fuel (type.describe.toList ++ rest) = some (type.erased, rest)
  | _, _, 0, _, hf, _ => absurd hf (Nat.not_lt_zero _)
  | .basic name, ⟨hn, hb⟩, fuel + 1, rest, hf, ends => by
    have text : (TypeExpr.basic name).describe.toList = qualified "" name := rfl
    rw [text, readType_qualified primitives hn rfl ends.stops, ofWord_qualified primitives hn]
    simp [hb, TypeExpr.pared]
  | .named package name, ⟨hn, hp, hb⟩, fuel + 1, rest, hf, ends => by
    rw [describe_named, readType_qualified primitives hn hp ends.stops,
      ofWord_qualified primitives hn, if_neg fun h => hb h.1 h.2]
    rfl
  | .pointer elem, h, fuel + 1, rest, hf, ends => by
    have text : (TypeExpr.pointer elem).describe.toList ++ rest =
        '*' :: (elem.describe.toList ++ rest) := by simp [TypeExpr.describe]
    have read := readType_describe elem h fuel rest (by simp at hf; omega) ends
    rw [text, readType, read]
    rfl
  | .slice elem, h, fuel + 1, rest, hf, ends => by
    have text : (TypeExpr.slice elem).describe.toList ++ rest =
        '[' :: ']' :: (elem.describe.toList ++ rest) := by simp [TypeExpr.describe]
    have read := readType_describe elem h fuel rest (by simp at hf; omega) ends
    rw [text, readType, read]
    rfl
  | .array length elem, h, fuel + 1, rest, hf, ends => by
    have text : (TypeExpr.array length elem).describe.toList ++ rest =
        '[' :: ((toString length.toNat).toList ++ ']' :: (elem.describe.toList ++ rest)) := by
      simp [TypeExpr.describe]
    have read := readType_describe elem h fuel rest (by simp at hf; omega) ends
    rw [text, readType_array, read]
    rfl
  | .chan direction elem, h, fuel + 1, rest, hf, ends => by
    have text : (TypeExpr.chan direction elem).describe.toList ++ rest =
        direction.text.toList ++ (elem.describe.toList ++ rest) := by simp [TypeExpr.describe]
    have read := readType_describe elem h fuel rest (by simp at hf; omega) ends
    rw [text, readType_chan, read]
    rfl
  | .map key elem, ⟨hk, he⟩, fuel + 1, rest, hf, ends => by
    have text : (TypeExpr.map key elem).describe.toList ++ rest =
        "map[".toList ++ (key.describe.toList ++ ']' :: (elem.describe.toList ++ rest)) := by
      simp [TypeExpr.describe]
    have readKey := readType_describe key hk fuel (']' :: (elem.describe.toList ++ rest))
      (by simp at hf; omega) (ends_cons (by decide) _)
    have readElem := readType_describe elem he fuel rest (by simp at hf; omega) ends
    rw [text, readType_map, readKey]
    simp [readElem, TypeExpr.pared]
  | .struct fields, h, fuel + 1, rest, hf, ends => by
    have text : (TypeExpr.struct fields).describe.toList ++ rest =
        "struct\x7b".toList ++ ((describeFields fields).toList ++ '\x7d' :: rest) := by
      simp [TypeExpr.describe]
    have read := readFields_describe fields h fuel rest (by simp at hf; omega)
    rw [text, readType_struct, read]
    rfl
  | .func signature, h, fuel + 1, rest, hf, ends => by
    obtain ⟨tail, starts⟩ := signature_starts signature
    have text : (TypeExpr.func signature).describe.toList ++ rest =
        "func(".toList ++ (tail ++ rest) := by simp [TypeExpr.describe, starts]
    have read := readSignature_describe signature h fuel rest (by simp at hf; omega) ends
    rw [starts, List.cons_append] at read
    rw [text, readType_func, read]
    rfl
  | .interface methods, h, fuel + 1, rest, hf, ends => by
    have text : (TypeExpr.interface methods).describe.toList ++ rest =
        "interface\x7b".toList ++ ((describeMethods methods).toList ++ '\x7d' :: rest) := by
      simp [TypeExpr.describe]
    have read := readMethods_describe methods h fuel rest (by simp at hf; omega)
    rw [text, readType_interface, read]
    rfl
  | .other description, h, fuel + 1, rest, hf, ends => h.elim

theorem readSignature_describe : ∀ signature : SignatureExpr,
    WellSpelledSignature primitives signature →
    ∀ (fuel : Nat) (rest : List Char), sizeOf signature < fuel → Ends rest →
      readSignature primitives fuel (signature.describe.toList ++ rest) =
        some (signature.pared true, rest)
  | _, _, 0, _, hf, _ => absurd hf (Nat.not_lt_zero _)
  | ⟨receiver, params, results, variadic⟩, ⟨hp, hr, hv⟩, fuel + 1, rest, hf, ends => by
    have text : (SignatureExpr.mk receiver params results variadic).describe.toList ++ rest =
        '(' :: ((describeList variadic params).toList ++
          ')' :: ((describeResults results).toList ++ rest)) := by
      simp [SignatureExpr.describe]
    have readParams := readList_describe variadic params hp hv fuel
      ((describeResults results).toList ++ rest) (by simp at hf; omega)
    have readRest := readResults_describe results hr fuel rest (by simp at hf; omega) ends
    rw [text, readSignature, List.tail_cons, readParams]
    simp [readRest, SignatureExpr.pared]

theorem readResults_describe : ∀ types : List TypeExpr, WellSpelledList primitives types →
    ∀ (fuel : Nat) (rest : List Char), sizeOf types + 1 < fuel → Ends rest →
      readResults primitives fuel ((describeResults types).toList ++ rest) =
        some (paredList true types, rest)
  | _, _, 0, _, hf, _ => absurd hf (Nat.not_lt_zero _)
  | [], _, fuel + 1, rest, hf, ends => by
    have list : rest.take 2 ≠ [' ', '('] := by
      intro eq
      cases rest with
      | nil => cases eq
      | cons c tail =>
        have blank : c = ' ' := (List.cons.inj eq).1
        have tag := ends.tag (by rw [blank]; rfl)
        rw [eq] at tag
        exact absurd tag (by decide)
    have single : ¬ (rest.head? = some ' ' ∧ rest.take 2 ≠ [' ', '"']) :=
      fun ⟨blank, tag⟩ => tag (ends.tag blank)
    show readResults primitives (fuel + 1) rest = _
    rw [readResults, if_neg list, if_neg single]
    rfl
  | [single], spelled, fuel + 1, rest, hf, ends => by
    obtain ⟨c, tail, starts, start⟩ := describe_starts primitives spelled.1
    rw [describeResults_single]
    rcases describeResult_cases single with text | text
    · have read := readType_describe single spelled.1 fuel rest (by simp at hf; omega) ends
      have open' : c ≠ '(' := isStart_ne start (by decide)
      have quote : c ≠ '"' := isStart_ne start (by decide)
      rw [starts, List.cons_append] at read
      rw [text, readResults]
      simp [starts, open', quote, read, paredList]
    · have list := readList_describe false [single] spelled Bool.noConfusion fuel rest (by omega)
      rw [describeList_single, describeLast_false] at list
      rw [text, readResults]
      simp [list]
  | first :: second :: others, spelled, fuel + 1, rest, hf, ends => by
    have text : (describeResults (first :: second :: others)).toList ++ rest =
        ' ' :: '(' :: ((describeList false (first :: second :: others)).toList ++ ')' :: rest) := by
      simp [describeResults_cons, describeList_cons]
    have list := readList_describe false _ spelled Bool.noConfusion fuel rest (by omega)
    rw [text, readResults]
    simp [list]

theorem readList_describe (variadic : Bool) : ∀ types : List TypeExpr,
    WellSpelledList primitives types → (variadic = true → endsWithSlice types = true) →
    ∀ (fuel : Nat) (rest : List Char), sizeOf types < fuel →
      readList primitives fuel ((describeList variadic types).toList ++ ')' :: rest) =
        some ((paredList true types, variadic), rest)
  | _, _, _, 0, _, hf => absurd hf (Nat.not_lt_zero _)
  | [], _, hv, fuel + 1, rest, hf => by
    cases variadic with
    | false => rfl
    | true => exact absurd (hv rfl) (by decide)
  | [single], ⟨h, _⟩, hv, fuel + 1, rest, hf => by
    rw [describeList_single]
    cases variadic with
    | false =>
      obtain ⟨c, tail, starts, start⟩ := describe_starts primitives h
      have read := readType_describe single h fuel (')' :: rest) (by simp at hf; omega)
        (ends_cons (by decide) rest)
      rw [describeLast_false]
      exact readList_single primitives starts start read
    | true =>
      cases single with
      | slice elem =>
        have text : ((TypeExpr.slice elem).describeLast true).toList ++ ')' :: rest =
            '.' :: '.' :: '.' :: (elem.describe.toList ++ ')' :: rest) := by
          simp [TypeExpr.describeLast]
        have read := readType_describe elem h fuel (')' :: rest) (by simp at hf; omega)
          (ends_cons (by decide) rest)
        rw [text, readList]
        simp [read, paredList, TypeExpr.pared]
      | _ => exact absurd (hv rfl) (by simp [endsWithSlice])
  | first :: second :: others, ⟨h, hs⟩, hv, fuel + 1, rest, hf => by
    obtain ⟨c, tail, starts, start⟩ := describe_starts primitives h
    have text : (describeList variadic (first :: second :: others)).toList ++ ')' :: rest =
        first.describe.toList ++ ',' :: ' ' ::
          ((describeList variadic (second :: others)).toList ++ ')' :: rest) := by
      simp [describeList_cons]
    have read := readType_describe first h fuel (',' :: ' ' ::
      ((describeList variadic (second :: others)).toList ++ ')' :: rest)) (by simp at hf; omega)
      (ends_cons (by decide) _)
    have last : variadic = true → endsWithSlice (second :: others) = true := by
      intro set
      have slice := hv set
      rwa [endsWithSlice, List.getLast?_cons_cons] at slice
    have more := readList_describe variadic (second :: others) hs last fuel rest
      (by simp at hf ⊢; omega)
    rw [text]
    exact readList_cons primitives starts start read more

theorem readField_describe : ∀ (field : FieldExpr) (others : List FieldExpr),
    WellSpelledFields primitives (field :: others) →
    ∀ (fuel : Nat) (rest : List Char), sizeOf field < fuel → Ends rest → rest.head? ≠ some ' ' →
      readField primitives fuel (field.describe.toList ++ rest) = some (field.pared true, rest)
  | _, _, _, 0, _, hf, _, _ => absurd hf (Nat.not_lt_zero _)
  | ⟨name, true, tag, type, pos⟩, _, ⟨ht, hn, _⟩, fuel + 1, rest, hf, ends, bare => by
    have text : (FieldExpr.mk name true tag type pos).describe.toList ++ rest =
        type.describe.toList ++ (tagText tag ++ rest) := by
      simp [FieldExpr.describe, tagText]
    have read := readType_describe type ht fuel _ (by simp at hf; omega) (ends_tag tag ends)
    rw [text, readField, if_neg (embedded_no_name primitives ht hn (ends_tag tag ends)), read]
    simp [readTag_quoted tag rest bare, FieldExpr.pared]
  | ⟨name, false, tag, type, pos⟩, _, ⟨ht, hn, _⟩, fuel + 1, rest, hf, ends, bare => by
    have text : (FieldExpr.mk name false tag type pos).describe.toList ++ rest =
        name.toList ++ ' ' :: (type.describe.toList ++ (tagText tag ++ rest)) := by
      simp [FieldExpr.describe, tagText]
    have read := readType_describe type ht fuel _ (by simp at hf; omega) (ends_tag tag ends)
    have word : ∀ c ∈ name.toList, isPathChar c = true :=
      fun c mem => isPathChar_of_isWordRest ((isName_spec hn).2.1 c mem)
    obtain ⟨c, tail, starts, start⟩ := describe_starts primitives ht
    have quote : c ≠ '"' := isStart_ne start (by decide)
    rw [text, readField, takeWhile_append_stop word (Stops.cons (by decide) _),
      dropWhile_append_stop word (Stops.cons (by decide) _), if_pos (by simp [starts, quote]),
      List.tail_cons, read]
    simp [readTag_quoted tag rest bare, FieldExpr.pared]

theorem readFields_describe : ∀ fields : List FieldExpr, WellSpelledFields primitives fields →
    ∀ (fuel : Nat) (rest : List Char), sizeOf fields < fuel →
      readFields primitives fuel ((describeFields fields).toList ++ '\x7d' :: rest) =
        some (paredFields true fields, rest)
  | _, _, 0, _, hf => absurd hf (Nat.not_lt_zero _)
  | [], _, fuel + 1, rest, hf => rfl
  | first :: others, h, fuel + 1, rest, hf => by
    obtain ⟨c, tail, starts, start⟩ := field_starts primitives h
    have close : c ≠ '\x7d' := isStart_ne start (by decide)
    have read stop after (ends : Ends (stop :: after)) := readField_describe first others h fuel
      (stop :: after) (by simp at hf; omega) ends
    rw [starts] at read
    cases others with
    | nil =>
      rw [describeFields, readFields, starts, read '\x7d' rest (ends_cons (by decide) _) (by simp)]
      simp [close, paredFields]
    | cons second others =>
      have text : (describeFields (first :: second :: others)).toList ++ '\x7d' :: rest =
          first.describe.toList ++ ';' :: ' ' ::
            ((describeFields (second :: others)).toList ++ '\x7d' :: rest) := by
        simp [describeFields]
      have more := readFields_describe (second :: others) (wellSpelledFields_tail primitives h) fuel
        rest (by simp at hf ⊢; omega)
      rw [text, readFields, starts, read ';' _ (ends_cons (by decide) _) (by simp)]
      simp [close, more, paredFields]

theorem readMethod_describe : ∀ (method : MethodExpr) (others : List MethodExpr),
    WellSpelledMethods primitives (method :: others) →
    ∀ (fuel : Nat) (rest : List Char), sizeOf method < fuel → Ends rest →
      readMethod primitives fuel (method.describe.toList ++ rest) = some (method.pared true, rest)
  | _, _, _, 0, _, hf, _ => absurd hf (Nat.not_lt_zero _)
  | ⟨name, pos, signature⟩, _, ⟨hn, hs, _⟩, fuel + 1, rest, hf, ends => by
    have text : (MethodExpr.mk name pos signature).describe.toList ++ rest =
        name.toList ++ (signature.describe.toList ++ rest) := by
      simp [MethodExpr.describe]
    have read := readSignature_describe signature hs fuel rest (by simp at hf; omega) ends
    have word : ∀ c ∈ name.toList, isPathChar c = true :=
      fun c mem => isPathChar_of_isWordRest ((isName_spec hn).2.1 c mem)
    obtain ⟨tail, starts⟩ := signature_starts signature
    have stops : Stops (signature.describe.toList ++ rest) := by
      rw [starts]
      exact Stops.cons (by decide) _
    rw [text, readMethod, takeWhile_append_stop word stops, dropWhile_append_stop word stops, read]
    simp [MethodExpr.pared]

theorem readMethods_describe : ∀ methods : List MethodExpr, WellSpelledMethods primitives methods →
    ∀ (fuel : Nat) (rest : List Char), sizeOf methods < fuel →
      readMethods primitives fuel ((describeMethods methods).toList ++ '\x7d' :: rest) =
        some (paredMethods true methods, rest)
  | _, _, 0, _, hf => absurd hf (Nat.not_lt_zero _)
  | [], _, fuel + 1, rest, hf => rfl
  | first :: others, h, fuel + 1, rest, hf => by
    obtain ⟨c, tail, starts, start⟩ := method_starts primitives h
    have close : c ≠ '\x7d' := isStart_ne start (by decide)
    have read stop after (ends : Ends (stop :: after)) := readMethod_describe first others h fuel
      (stop :: after) (by simp at hf; omega) ends
    rw [starts] at read
    cases others with
    | nil =>
      rw [describeMethods, readMethods, starts, read '\x7d' rest (ends_cons (by decide) _)]
      simp [close, paredMethods]
    | cons second others =>
      have text : (describeMethods (first :: second :: others)).toList ++ '\x7d' :: rest =
          first.describe.toList ++ ';' :: ' ' ::
            ((describeMethods (second :: others)).toList ++ '\x7d' :: rest) := by
        simp [describeMethods]
      have more := readMethods_describe (second :: others) (wellSpelledMethods_tail primitives h)
        fuel rest (by simp at hf ⊢; omega)
      rw [text, readMethods, starts, read ';' _ (ends_cons (by decide) _)]
      simp [close, more, paredMethods]

end

/-! ## One name, one type -/

/-- A canonical name tells the description. -/
theorem describe_of_canonicalName (type : TypeExpr) :
    type.describe = if type.canonicalName.package.isEmpty then type.canonicalName.name
      else type.canonicalName.package ++ "." ++ type.canonicalName.name := by
  cases type <;> rfl

/-- Types with one description are the same type, less what it leaves out. -/
theorem erased_eq_of_describe {s t : TypeExpr} (hs : WellSpelled primitives s)
    (ht : WellSpelled primitives t) (h : s.describe = t.describe) : s.erased = t.erased := by
  have readS := readType_describe primitives s hs (sizeOf s + sizeOf t + 1) [] (by omega) trivial
  have readT := readType_describe primitives t ht (sizeOf s + sizeOf t + 1) [] (by omega) trivial
  rw [h, readT] at readS
  exact (Prod.mk.inj (Option.some.inj readS)).1.symm

/-- Canonical names identify types: of well spelled types, two have one name
exactly if they agree but for positions, receivers and the names of embedded
fields. -/
theorem canonicalName_eq_iff {s t : TypeExpr} (hs : WellSpelled primitives s)
    (ht : WellSpelled primitives t) :
    s.canonicalName = t.canonicalName ↔ s.erased = t.erased := by
  constructor
  · intro same
    refine erased_eq_of_describe primitives hs ht ?_
    rw [describe_of_canonicalName s, describe_of_canonicalName t, same]
  · intro same
    have agree : s.erased.canonicalName = t.erased.canonicalName := by rw [same]
    rwa [s.canonicalName_pared, t.canonicalName_pared] at agree

/-- A struct with a tag and a method value, and the same struct seen from another
place with another receiver, against one with a longer array. -/
theorem canonicalName_eq_iff_struct :
    let isPrimitive := fun name => name == "int" || name == "string"
    let base (length : UInt64) (receiver : Option TypeExpr) (embedded : String) : TypeExpr :=
      .struct [⟨embedded, true, "json:\"b\"", .pointer (.named "a.b/c-d" "Base"), none⟩,
        ⟨"call", false, "", .func ⟨receiver,
          [.chan .receive (.array length (.basic "int")), .slice (.named "" "error")],
          [.func ⟨none, [], [.interface [⟨"Get", none, ⟨none, [], [], false⟩⟩]], false⟩], true⟩,
          none⟩]
    WellSpelled isPrimitive (base 3 none "Base") ∧
      WellSpelled isPrimitive (base 3 (some (.basic "int")) "") ∧
      WellSpelled isPrimitive (base 30 none "Base") ∧
      (base 3 none "Base").canonicalName = (base 3 (some (.basic "int")) "").canonicalName ∧
      (base 3 none "Base").canonicalName ≠ (base 30 none "Base").canonicalName := by
  intro isPrimitive base
  have spelled : ∀ length receiver embedded,
      WellSpelled isPrimitive (base length receiver embedded) := by
    intro length receiver embedded
    simp only [base, WellSpelled, WellSpelledFields, WellSpelledSignature, WellSpelledList,
      WellSpelledMethods, isPrimitive, isEmbeddable, endsWithSlice, List.getLast?_cons_cons,
      List.getLast?_singleton, if_true, Bool.false_eq_true, if_false]
    decide
  refine ⟨spelled 3 none "Base", spelled 3 _ "", spelled 30 none "Base", ?_, ?_⟩
  · exact (canonicalName_eq_iff isPrimitive (spelled 3 _ _) (spelled 3 _ _)).2 rfl
  · intro same
    have agree := (canonicalName_eq_iff isPrimitive (spelled 3 _ _) (spelled 30 _ _)).1 same
    simp [base, TypeExpr.pared, paredFields, FieldExpr.pared, SignatureExpr.pared,
      paredList] at agree

end GoAtlas.Description
