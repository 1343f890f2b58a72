import GoAtlas.Source.TypeReader

/-!
# Rules of reading types

`Reads` says what a reader takes from tokens and what it leaves. There is one rule for
each way a type, a list of parameters, a signature, a field or an element of an interface
can go on. Where a reader looks ahead, the rule asks for what it may find there: a name is
qualified unless no dot follows it, a signature has a result where a type starts, and a
word is an embedded field where the field ends.
-/

namespace GoAtlas.Source

variable {α : Type} {line : Nat} {toks more rest : List Token}
variable {after : List Token} {signature : SignatureTree} {called : Option String}

/-- The reader takes the value from the tokens and leaves the rest. -/
def Reads (read : (toks : List Token) → Except Fault (Taken α toks.length)) (toks : List Token)
    (value : α) (rest : List Token) : Prop :=
  ∃ fewer, read toks = .ok ⟨value, rest, fewer⟩

-- Makes the equations of the readers here, once, and not in each of the proofs below.
attribute [local simp] readType readSignature readParams readField readFields readElement
  readElements

variable {type elem key : TypeTree}

theorem reads_pointer (h : Reads (readType line) toks elem rest) :
    Reads (readType line) (.mark .star :: toks) (.pointer elem) rest := by
  obtain ⟨fewer, read⟩ := h
  exact ⟨Nat.lt_succ_of_lt fewer, by rw [readType, read]; rfl⟩

theorem reads_slice :
    Reads (readType line) (.mark .lbracket :: .mark .rbracket :: toks) (.slice elem) rest ↔
      Reads (readType line) toks elem rest := by
  constructor
  · rintro ⟨fewer, read⟩
    rw [readType] at read
    cases inner : readType line toks with
    | error fault =>
      rw [inner] at read
      cases read
    | ok taken =>
      rw [inner] at read
      cases read
      exact ⟨taken.fewer, inner⟩
  · rintro ⟨fewer, read⟩
    exact ⟨Nat.lt_succ_of_lt (Nat.lt_succ_of_lt fewer), by rw [readType, read]; rfl⟩

theorem reads_array (length : UInt64) (h : Reads (readType line) toks elem rest) :
    Reads (readType line) (.mark .lbracket :: .int length :: .mark .rbracket :: toks)
      (.array length elem) rest := by
  obtain ⟨fewer, read⟩ := h
  refine ⟨Nat.lt_succ_of_lt (Nat.lt_succ_of_lt (Nat.lt_succ_of_lt fewer)), ?_⟩
  rw [readType]
  show (readType line toks >>= _) = _
  rw [read]
  rfl

theorem reads_parens (h : Reads (readType line) toks type (.mark .rparen :: rest)) :
    Reads (readType line) (.mark .lparen :: toks) type rest := by
  obtain ⟨fewer, read⟩ := h
  refine ⟨by simp only [List.length_cons] at fewer ⊢; omega, ?_⟩
  rw [readType, read]
  rfl

theorem reads_map (first : Reads (readType line) toks key (.mark .rbracket :: more))
    (second : Reads (readType line) more elem rest) :
    Reads (readType line) (.word "map" :: .mark .lbracket :: toks) (.map key elem) rest := by
  obtain ⟨fewer, read⟩ := first
  obtain ⟨less, next⟩ := second
  refine ⟨by simp only [List.length_cons] at fewer ⊢; omega, ?_⟩
  rw [readType]
  show (readType line toks >>= _) = _
  rw [read]
  show (readType line more >>= _) = _
  rw [next]
  rfl

theorem reads_receive (h : Reads (readType line) toks elem rest) :
    Reads (readType line) (.mark .arrow :: .word "chan" :: toks) (.chan .receive elem) rest := by
  obtain ⟨fewer, read⟩ := h
  refine ⟨Nat.lt_succ_of_lt (Nat.lt_succ_of_lt fewer), ?_⟩
  rw [readType]
  show (readType line toks >>= _) = _
  rw [read]
  rfl

theorem reads_send (h : Reads (readType line) toks elem rest) :
    Reads (readType line) (.word "chan" :: .mark .arrow :: toks) (.chan .send elem) rest := by
  obtain ⟨fewer, read⟩ := h
  exact ⟨Nat.lt_succ_of_lt (Nat.lt_succ_of_lt fewer), by rw [readType, read]; rfl⟩

theorem reads_chan (h : Reads (readType line) toks elem rest)
    (plain : toks.head? ≠ some (.mark .arrow)) :
    Reads (readType line) (.word "chan" :: toks) (.chan .both elem) rest := by
  obtain ⟨fewer, read⟩ := h
  refine ⟨Nat.lt_succ_of_lt fewer, ?_⟩
  rw [readType, read]
  · rfl
  · rintro other rfl
    exact plain rfl

theorem reads_func (h : Reads (readSignature line) toks signature rest) :
    Reads (readType line) (.word "func" :: toks) (.func signature) rest := by
  obtain ⟨fewer, read⟩ := h
  exact ⟨Nat.lt_succ_of_lt fewer, by rw [readType, read]; rfl⟩

theorem reads_struct {fields : List FieldTree} (h : Reads (readFields line) toks fields rest) :
    Reads (readType line) (.word "struct" :: .mark .lbrace :: toks) (.struct fields) rest := by
  obtain ⟨fewer, read⟩ := h
  refine ⟨Nat.lt_succ_of_lt (Nat.lt_succ_of_lt fewer), ?_⟩
  rw [readType]
  show (readFields line toks >>= _) = _
  rw [read]
  rfl

theorem reads_interface {elements : List ElementTree}
    (h : Reads (readElements line) toks elements rest) :
    Reads (readType line) (.word "interface" :: .mark .lbrace :: toks) (.interface elements)
      rest := by
  obtain ⟨fewer, read⟩ := h
  refine ⟨Nat.lt_succ_of_lt (Nat.lt_succ_of_lt fewer), ?_⟩
  rw [readType]
  show (readElements line toks >>= _) = _
  rw [read]
  rfl

variable {package name : String}

theorem ne_of_isTypeWord {keyword : String} (plain : isTypeWord name = false)
    (typeWord : isTypeWord keyword = true) : name ≠ keyword := by
  rintro rfl
  rw [plain] at typeWord
  cases typeWord

theorem reads_qualified (plain : isTypeWord package = false) :
    Reads (readType line) (.word package :: .mark .dot :: .word name :: rest)
      (.qualified package name) rest := by
  refine ⟨by simp only [List.length_cons]; omega, ?_⟩
  rw [readType]
  · rfl
  all_goals exact ne_of_isTypeWord plain (by decide)

theorem reads_ident (plain : isTypeWord name = false) (ends : rest.head? ≠ some (.mark .dot)) :
    Reads (readType line) (.word name :: rest) (.ident name) rest := by
  refine ⟨Nat.lt_succ_self _, ?_⟩
  rw [readType]
  · exact ne_of_isTypeWord plain (by decide)
  · exact fun _ _ => ne_of_isTypeWord plain (by decide)
  · exact ne_of_isTypeWord plain (by decide)
  · exact ne_of_isTypeWord plain (by decide)
  · exact ne_of_isTypeWord plain (by decide)
  · exact ne_of_isTypeWord plain (by decide)
  · rintro other rfl
    exact ends rfl

/-! ### Parameters and results -/

/-- A parameter without a name starts here: perhaps with dots, then with its type. -/
structure ParamStart (toks : List Token) (dots : Bool) (more : List Token) : Prop where
  unnamed : takeName toks = ⟨none, toks, Nat.le_refl _⟩
  taken : ∃ most, takeDots toks = ⟨dots, more, most⟩
  goes : toks.head? ≠ some (.mark .rparen)

variable {entries : List ParamEntry} {dots : Bool} {params results : List TypeTree}
  {variadic : Bool}

theorem reads_noParams : Reads (readParams line) (.mark .rparen :: rest) [] rest :=
  ⟨Nat.lt_succ_self _, by rw [readParams]⟩

/-- An entry of a list of parameters starts here: perhaps with its name and with dots, then with
its type. -/
structure EntryStart (toks : List Token) (called : Option String) (dots : Bool)
    (more : List Token) : Prop where
  taken : ∃ after most most', takeName toks = ⟨called, after, most⟩ ∧
    takeDots after = ⟨dots, more, most'⟩
  goes : toks.head? ≠ some (.mark .rparen)

theorem ParamStart.entry (start : ParamStart toks dots more) : EntryStart toks none dots more := by
  obtain ⟨unnamed, ⟨most, taken⟩, goes⟩ := start
  exact ⟨⟨toks, Nat.le_refl _, most, unnamed, taken⟩, goes⟩

theorem reads_lastEntry (start : EntryStart toks called dots more)
    (h : Reads (readType line) more type (.mark .rparen :: rest)) :
    Reads (readParams line) toks [⟨called, type, dots⟩] rest := by
  obtain ⟨⟨after, most, most', named, taken⟩, goes⟩ := start
  obtain ⟨fewer, read⟩ := h
  refine ⟨by simp only [List.length_cons] at fewer; omega, ?_⟩
  rw [readParams]
  · generalize takeName toks = name at named ⊢
    subst named
    dsimp only
    generalize takeDots after = kept at taken ⊢
    subst taken
    dsimp only
    rw [read]
    rfl
  · rintro other rfl
    exact goes rfl

theorem reads_nextEntry (start : EntryStart toks called dots more)
    (h : Reads (readType line) more type (.mark .comma :: after))
    (others : Reads (readParams line) after entries rest) :
    Reads (readParams line) toks (⟨called, type, dots⟩ :: entries) rest := by
  obtain ⟨⟨begun, most, most', named, taken⟩, goes⟩ := start
  obtain ⟨fewer, read⟩ := h
  obtain ⟨less, next⟩ := others
  refine ⟨by simp only [List.length_cons] at fewer; omega, ?_⟩
  rw [readParams]
  · generalize takeName toks = name at named ⊢
    subst named
    dsimp only
    generalize takeDots begun = kept at taken ⊢
    subst taken
    dsimp only
    rw [read]
    show (readParams line after >>= _) = _
    rw [next]
    rfl
  · rintro other rfl
    exact goes rfl

variable (list : paramList entries = .ok (params, variadic))

include list

theorem reads_noResult (h : Reads (readParams line) toks entries rest)
    (plain : startsType rest = false) :
    Reads (readSignature line) (.mark .lparen :: toks) ⟨params, [], variadic⟩ rest := by
  obtain ⟨fewer, read⟩ := h
  refine ⟨Nat.lt_succ_of_lt fewer, ?_⟩
  rw [readSignature]
  show (readParams line toks >>= _) = _
  rw [read]
  show (paramList entries >>= _) = _
  rw [list]
  simp only [bind, Except.bind]
  split
  · cases plain
  · rw [plain]
    rfl

theorem reads_result {result : TypeTree} (h : Reads (readParams line) toks entries more)
    (second : Reads (readType line) more result rest)
    (starts : startsType more = true) (bare : more.head? ≠ some (.mark .lparen)) :
    Reads (readSignature line) (.mark .lparen :: toks) ⟨params, [result], variadic⟩ rest := by
  obtain ⟨fewer, read⟩ := h
  obtain ⟨less, next⟩ := second
  refine ⟨by simp only [List.length_cons]; omega, ?_⟩
  rw [readSignature]
  show (readParams line toks >>= _) = _
  rw [read]
  show (paramList entries >>= _) = _
  rw [list]
  simp only [bind, Except.bind]
  split
  · exact absurd rfl bare
  · rw [starts]
    show (readType line more >>= _) = _
    rw [next]
    rfl

theorem reads_results {others : List ParamEntry} {flag : Bool}
    (h : Reads (readParams line) toks entries (.mark .lparen :: more))
    (second : Reads (readParams line) more others rest)
    (types : paramList others = .ok (results, flag)) :
    Reads (readSignature line) (.mark .lparen :: toks) ⟨params, results, variadic⟩ rest := by
  obtain ⟨fewer, read⟩ := h
  obtain ⟨less, next⟩ := second
  refine ⟨by simp only [List.length_cons] at fewer ⊢; omega, ?_⟩
  rw [readSignature]
  show (readParams line toks >>= _) = _
  rw [read]
  show (paramList entries >>= _) = _
  rw [list]
  show (readParams line more >>= _) = _
  rw [next]
  show (paramList others >>= _) = _
  rw [types]
  rfl

omit list

/-! ### Members -/

variable {tag : String} {fields : List FieldTree} {elements : List ElementTree}

/-- A member of a struct or an interface ends here. -/
def endsMember : List Token → Bool
  | .mark .semicolon :: _ | .mark .rbrace :: _ => true
  | _ => false

theorem endsMember_cases (ends : endsMember rest = true) :
    (∃ more, rest = .mark .semicolon :: more) ∨ ∃ more, rest = .mark .rbrace :: more := by
  unfold endsMember at ends
  split at ends
  · exact .inl ⟨_, rfl⟩
  · exact .inr ⟨_, rfl⟩
  · cases ends

/-- The tag of a field stands here, or nothing does and the tag is empty. -/
def Tagged (toks : List Token) (tag : String) (rest : List Token) : Prop :=
  ∃ most, takeTag toks = ⟨tag, rest, most⟩

theorem reads_embeddedPointer (h : Reads (readType line) toks elem more)
    (tagged : Tagged more tag rest) :
    Reads (readField line) (.mark .star :: toks) [⟨baseName elem, true, tag, .pointer elem, line⟩]
      rest := by
  obtain ⟨fewer, read⟩ := h
  obtain ⟨most, taken⟩ := tagged
  refine ⟨by simp only [List.length_cons]; omega, ?_⟩
  rw [readField, read]
  simp only [bind, Except.bind, taken]
  rfl

theorem reads_embeddedQualified (tagged : Tagged toks tag rest) :
    Reads (readField line) (.word package :: .mark .dot :: .word name :: toks)
      [⟨name, true, tag, .qualified package name, line⟩] rest := by
  obtain ⟨most, taken⟩ := tagged
  refine ⟨by simp only [List.length_cons]; omega, ?_⟩
  rw [readField]
  simp only [bind, Except.bind, expectWord, taken]
  rfl

theorem reads_embeddedIdent (ended : endsField toks = true) (tagged : Tagged toks tag rest) :
    Reads (readField line) (.word name :: toks) [⟨name, true, tag, .ident name, line⟩] rest := by
  obtain ⟨most, taken⟩ := tagged
  refine ⟨by simp only [List.length_cons]; omega, ?_⟩
  rw [readField]
  · rw [if_pos ended]
    simp only [taken]
  · rintro other rfl
    cases ended

/-- A type starts with the token. -/
def opensType : Token → Bool
  | .word _ | .mark .star | .mark .lbracket | .mark .arrow => true
  | _ => false

theorem opensType_cases {token : Token} (opens : opensType token = true) :
    (∃ name, token = .word name) ∨ token = .mark .star ∨ token = .mark .lbracket ∨
      token = .mark .arrow := by
  unfold opensType at opens
  split at opens
  · exact .inl ⟨_, rfl⟩
  · exact .inr (.inl rfl)
  · exact .inr (.inr (.inl rfl))
  · exact .inr (.inr (.inr rfl))
  · cases opens

theorem reads_namedFields {names : List String}
    (taken : ∃ most, takeNames toks = .ok ⟨names, more, most⟩) (goes : endsField toks = false)
    (unqualified : toks.head? ≠ some (.mark .dot)) (h : Reads (readType line) more type after)
    (tagged : Tagged after tag rest) :
    Reads (readField line) (.word name :: toks)
      ((name :: names).map fun name => ⟨name, false, tag, type, line⟩) rest := by
  obtain ⟨most, taken⟩ := taken
  obtain ⟨fewer, read⟩ := h
  obtain ⟨left, tagged⟩ := tagged
  refine ⟨by simp only [List.length_cons]; omega, ?_⟩
  rw [readField]
  · rw [goes]
    simp only [bind, Except.bind, taken, read, tagged]
    rfl
  · rintro other rfl
    exact unqualified rfl

theorem reads_namedField {token : Token} (opens : opensType token = true)
    (h : Reads (readType line) (token :: toks) type more) (tagged : Tagged more tag rest) :
    Reads (readField line) (.word name :: token :: toks) [⟨name, false, tag, type, line⟩]
      rest := by
  have goes : endsField (token :: toks) = false := by
    obtain ⟨_, rfl⟩ | rfl | rfl | rfl := opensType_cases opens <;> rfl
  have single : takeNames (token :: toks) = .ok ⟨[], token :: toks, Nat.le_refl _⟩ := by
    obtain ⟨_, rfl⟩ | rfl | rfl | rfl := opensType_cases opens <;> rfl
  refine reads_namedFields ⟨_, single⟩ goes ?_ h tagged
  rintro ⟨⟩
  cases opens

theorem reads_noFields : Reads (readFields line) (.mark .rbrace :: rest) [] rest :=
  ⟨Nat.lt_succ_self _, by rw [readFields]⟩

theorem reads_fieldsSemicolon (h : Reads (readFields line) toks fields rest) :
    Reads (readFields line) (.mark .semicolon :: toks) fields rest := by
  obtain ⟨fewer, read⟩ := h
  exact ⟨Nat.lt_succ_of_lt fewer, by rw [readFields, read]; rfl⟩

theorem reads_field {field : List FieldTree} (h : Reads (readField line) toks field more)
    (goes : endsMember toks = false) (others : Reads (readFields line) more fields rest) :
    Reads (readFields line) toks (field ++ fields) rest := by
  obtain ⟨fewer, read⟩ := h
  obtain ⟨less, next⟩ := others
  refine ⟨Nat.lt_trans less fewer, ?_⟩
  rw [readFields]
  · rw [read]
    show (readFields line more >>= _) = _
    rw [next]
    rfl
  · rintro rfl
    exact absurd fewer (Nat.not_lt_zero _)
  · rintro other rfl
    cases goes
  · rintro other rfl
    cases goes

theorem reads_method (h : Reads (readSignature line) toks signature rest)
    (starts : toks.head? = some (.mark .lparen)) :
    Reads (readElement line) (.word name :: toks) (.method name signature line) rest := by
  obtain ⟨more, rfl⟩ := List.head?_eq_some_iff.1 starts
  obtain ⟨fewer, read⟩ := h
  exact ⟨Nat.lt_succ_of_lt fewer, by rw [readElement, read]; rfl⟩

theorem reads_elementQualified :
    Reads (readElement line) (.word package :: .mark .dot :: .word name :: rest)
      (.embedded (.qualified package name)) rest :=
  ⟨by simp only [List.length_cons]; omega, by rw [readElement]; rfl⟩

theorem reads_elementName (unqualified : rest.head? ≠ some (.mark .dot))
    (bare : rest.head? ≠ some (.mark .lparen)) :
    Reads (readElement line) (.word name :: rest) (.embedded (.ident name)) rest := by
  refine ⟨Nat.lt_succ_self _, ?_⟩
  rw [readElement]
  · rintro other rfl
    exact bare rfl
  · rintro other rfl
    exact unqualified rfl

theorem reads_elementIdent (ends : endsMember rest = true) :
    Reads (readElement line) (.word name :: rest) (.embedded (.ident name)) rest := by
  obtain ⟨more, rfl⟩ | ⟨more, rfl⟩ := endsMember_cases ends <;>
    exact reads_elementName (by simp) (by simp)

theorem reads_noElements : Reads (readElements line) (.mark .rbrace :: rest) [] rest :=
  ⟨Nat.lt_succ_self _, by rw [readElements]⟩

theorem reads_elementsSemicolon (h : Reads (readElements line) toks elements rest) :
    Reads (readElements line) (.mark .semicolon :: toks) elements rest := by
  obtain ⟨fewer, read⟩ := h
  exact ⟨Nat.lt_succ_of_lt fewer, by rw [readElements, read]; rfl⟩

theorem reads_element {element : ElementTree} (h : Reads (readElement line) toks element more)
    (goes : endsMember toks = false) (others : Reads (readElements line) more elements rest) :
    Reads (readElements line) toks (element :: elements) rest := by
  obtain ⟨fewer, read⟩ := h
  obtain ⟨less, next⟩ := others
  refine ⟨Nat.lt_trans less fewer, ?_⟩
  rw [readElements]
  · rw [read]
    show (readElements line more >>= _) = _
    rw [next]
    rfl
  · rintro rfl
    exact absurd fewer (Nat.not_lt_zero _)
  · rintro other rfl
    cases goes
  · rintro other rfl
    cases goes

end GoAtlas.Source
