import GoAtlas.Proofs.Source.TypeRules
import GoAtlas.Proofs.Source.Written

/-!
# The syntax of types

`TypeTree.tokens` writes a type: parameters have no names, the last one of a variadic list
stands after dots, a single result stands alone and several in parentheses, and a channel of
receivers has its elements in parentheses, since an arrow after `chan` makes a sender. Members
stand between semicolons, a tag after its field.

`TypeTree.isPlain` tells the types that can be written this way. The words that start a type
cannot be names, only a type with a name can be embedded, and a variadic list has a slice to
stand after the dots. Such a type is read back from every text that has its tokens
(`typeOf_written`). The proof follows the type (`reads_tokens`), for whatever comes after it as
long as that could not belong to it (`endsType`).
-/

namespace GoAtlas

open Source

/-! ## Types as tokens -/

/-- A channel that starts with an arrow. -/
def TypeTree.isReceiver : TypeTree → Bool
  | .chan .receive _ => true
  | _ => false

/-- The tag of a field, unless it is empty. -/
def tagTokens (tag : String) : List Token :=
  if tag.isEmpty then [] else [.literal tag]

mutual

/-- The tokens of a type. -/
def TypeTree.tokens : TypeTree → List Token
  | .ident name => [.word name]
  | .qualified package name => [.word package, .mark .dot, .word name]
  | .pointer elem => .mark .star :: elem.tokens
  | .slice elem => .mark .lbracket :: .mark .rbracket :: elem.tokens
  | .array length elem => .mark .lbracket :: .int length :: .mark .rbracket :: elem.tokens
  | .map key elem =>
    .word "map" :: .mark .lbracket :: (key.tokens ++ .mark .rbracket :: elem.tokens)
  | .chan .both elem =>
    -- an arrow right after the word would be read as that of a sender
    .word "chan" :: if elem.isReceiver then .mark .lparen :: (elem.tokens ++ [.mark .rparen])
      else elem.tokens
  | .chan .send elem => .word "chan" :: .mark .arrow :: elem.tokens
  | .chan .receive elem => .mark .arrow :: .word "chan" :: elem.tokens
  | .func signature => .word "func" :: signature.tokens
  | .struct fields => .word "struct" :: .mark .lbrace :: (fieldTokens fields ++ [.mark .rbrace])
  | .interface elements =>
    .word "interface" :: .mark .lbrace :: (elementTokens elements ++ [.mark .rbrace])

def SignatureTree.tokens : SignatureTree → List Token
  | ⟨params, results, variadic⟩ =>
    .mark .lparen :: (paramTokens variadic params ++ .mark .rparen :: resultTokens results)

/-- Types between commas. In a variadic list a slice at the end stands after dots. -/
def paramTokens (variadic : Bool) : List TypeTree → List Token
  | [] => []
  | [.slice elem] =>
    if variadic then .mark .ellipsis :: elem.tokens
    else .mark .lbracket :: .mark .rbracket :: elem.tokens
  | [single] => single.tokens
  | first :: rest => first.tokens ++ .mark .comma :: paramTokens variadic rest

/-- A single result stands alone, several stand in parentheses. -/
def resultTokens : List TypeTree → List Token
  | [] => []
  | [single] => single.tokens
  | first :: rest =>
    .mark .lparen ::
      (first.tokens ++ .mark .comma :: (paramTokens false rest ++ [.mark .rparen]))

def FieldTree.tokens : FieldTree → List Token
  | ⟨name, embedded, tag, type, _⟩ =>
    (if embedded then [] else [.word name]) ++ (type.tokens ++ tagTokens tag)

def fieldTokens : List FieldTree → List Token
  | [] => []
  | [single] => single.tokens
  | first :: rest => first.tokens ++ .mark .semicolon :: fieldTokens rest

def ElementTree.tokens : ElementTree → List Token
  | .method name signature _ => .word name :: signature.tokens
  | .embedded type => type.tokens

def elementTokens : List ElementTree → List Token
  | [] => []
  | [single] => single.tokens
  | first :: rest => first.tokens ++ .mark .semicolon :: elementTokens rest

end

/-! ## Types that can be written -/

/-- A word that starts no type of its own. -/
def isPlainWord (word : String) : Bool :=
  isWord word && !isTypeWord word

/-- The list ends with a slice. -/
def endsInSlice (types : List TypeTree) : Bool :=
  match types.getLast? with
  | some (.slice _) => true
  | _ => false

/-- A type with a name. -/
def TypeTree.isNamed : TypeTree → Bool
  | .ident _ | .qualified _ _ => true
  | _ => false

/-- What may be embedded in a struct: a type with a name, or a pointer to one. -/
def TypeTree.isEmbeddable : TypeTree → Bool
  | .pointer elem => elem.isNamed
  | type => type.isNamed

mutual

/-- The names of the type are plain words, a variadic list ends with a slice, what is
embedded has a name, and all members stand on the line. -/
def TypeTree.isPlain (line : Nat) : TypeTree → Bool
  | .ident name => isPlainWord name
  | .qualified package name => isPlainWord package && isPlainWord name
  | .pointer elem | .slice elem | .array _ elem | .chan _ elem => elem.isPlain line
  | .map key elem => key.isPlain line && elem.isPlain line
  | .func signature => signature.isPlain line
  | .struct fields => arePlainFields line fields
  | .interface elements => arePlainElements line elements

def SignatureTree.isPlain (line : Nat) : SignatureTree → Bool
  | ⟨params, results, variadic⟩ =>
    arePlainTypes line params && arePlainTypes line results && (!variadic || endsInSlice params)

def arePlainTypes (line : Nat) : List TypeTree → Bool
  | [] => true
  | first :: rest => first.isPlain line && arePlainTypes line rest

def FieldTree.isPlain (line : Nat) : FieldTree → Bool
  | ⟨name, embedded, _, type, place⟩ =>
    isPlainWord name && type.isPlain line && place == line &&
      (!embedded || type.isEmbeddable && name == baseName type)

def arePlainFields (line : Nat) : List FieldTree → Bool
  | [] => true
  | first :: rest => first.isPlain line && arePlainFields line rest

def ElementTree.isPlain (line : Nat) : ElementTree → Bool
  | .method name signature place => isPlainWord name && signature.isPlain line && place == line
  | .embedded type => type.isNamed && type.isPlain line

def arePlainElements (line : Nat) : List ElementTree → Bool
  | [] => true
  | first :: rest => first.isPlain line && arePlainElements line rest

end

namespace Source

/-! ## What stands around a type -/

variable {line : Nat} {toks more rest : List Token} {type : TypeTree} {params : List TypeTree}
  {variadic : Bool} {name tag : String}

/-- A type ends here: nothing follows that could belong to it. -/
def endsType (rest : List Token) : Bool :=
  !startsType rest && rest.head? != some (.mark .dot)

theorem endsType_iff : endsType rest = true ↔
    startsType rest = false ∧ rest.head? ≠ some (.mark .dot) := by
  simp [endsType]

theorem tagged_tagTokens (tag : String) (ends : endsMember rest = true) :
    Tagged (tagTokens tag ++ rest) tag rest := by
  by_cases empty : tag.isEmpty = true
  · rw [tagTokens, if_pos empty]
    rw [String.isEmpty_iff] at empty
    subst empty
    refine ⟨Nat.le_refl _, ?_⟩
    obtain ⟨more, rfl⟩ | ⟨more, rfl⟩ := endsMember_cases ends <;> rfl
  · rw [tagTokens, if_neg empty]
    exact ⟨Nat.le_succ _, rfl⟩

theorem endsField_tagTokens (tag : String) (ends : endsMember rest = true) :
    endsField (tagTokens tag ++ rest) = true := by
  unfold tagTokens
  split
  · obtain ⟨more, rfl⟩ | ⟨more, rfl⟩ := endsMember_cases ends <;> rfl
  · rfl

theorem endsType_of_endsMember (ends : endsMember rest = true) : endsType rest = true := by
  obtain ⟨more, rfl⟩ | ⟨more, rfl⟩ := endsMember_cases ends <;> rfl

theorem endsType_tagTokens (tag : String) (ends : endsMember rest = true) :
    endsType (tagTokens tag ++ rest) = true := by
  unfold tagTokens
  split
  · obtain ⟨more, rfl⟩ | ⟨more, rfl⟩ := endsMember_cases ends <;> rfl
  · rfl

/-- A type opens with a token of its own, with an arrow only if it receives. -/
theorem tokens_opens (tree : TypeTree) : ∃ token more, tree.tokens = token :: more ∧
    opensType token = true ∧ (tree.isReceiver = false → token ≠ .mark .arrow) := by
  cases tree with
  | chan direction elem =>
    cases direction with
    | receive => exact ⟨_, _, rfl, rfl, fun other => by cases other⟩
    | _ => exact ⟨_, _, rfl, rfl, fun _ => by decide⟩
  | _ =>
    rw [TypeTree.tokens]
    exact ⟨_, _, rfl, rfl, fun _ same => by cases same⟩

theorem signature_opens (signature : SignatureTree) (rest : List Token) :
    (signature.tokens ++ rest).head? = some (.mark .lparen) := by
  cases signature
  rfl

theorem head?_of_opensType {token : Token} {sign : Mark} (opens : opensType token = true)
    (other : opensType (.mark sign) = false) : (token :: toks).head? ≠ some (.mark sign) := by
  rintro ⟨⟩
  rw [opens] at other
  cases other

theorem startsType_of_opensType {token : Token} (opens : opensType token = true) :
    startsType (token :: toks) = true := by
  obtain ⟨_, rfl⟩ | rfl | rfl | rfl := opensType_cases opens <;> rfl

theorem endsMember_of_opensType {token : Token} (opens : opensType token = true) :
    endsMember (token :: toks) = false := by
  obtain ⟨_, rfl⟩ | rfl | rfl | rfl := opensType_cases opens <;> rfl

/-- The list of parameters goes on or ends here. -/
def endsParam : List Token → Bool
  | .mark .comma :: _ | .mark .rparen :: _ => true
  | _ => false

theorem endsParam_cases (ends : endsParam rest = true) :
    (∃ more, rest = .mark .comma :: more) ∨ ∃ more, rest = .mark .rparen :: more := by
  unfold endsParam at ends
  split at ends
  · exact .inl ⟨_, rfl⟩
  · exact .inr ⟨_, rfl⟩
  · cases ends

theorem takeName_typeWord (typeWord : isTypeWord name = true) (toks : List Token) :
    takeName (.word name :: toks) = ⟨none, .word name :: toks, Nat.le_refl _⟩ := by
  cases toks with
  | nil => rfl
  | cons next rest =>
    cases next with
    | mark sign =>
      cases sign with
      | dot => rfl
      | comma => rfl
      | rparen => rfl
      | _ => exact if_pos typeWord
    | _ => exact if_pos typeWord

/-- A type is not taken for the name of a parameter. -/
theorem takeName_tokens (tree : TypeTree) (ends : endsParam rest = true) :
    takeName (tree.tokens ++ rest) = ⟨none, tree.tokens ++ rest, Nat.le_refl _⟩ := by
  cases tree with
  | ident name => obtain ⟨more, rfl⟩ | ⟨more, rfl⟩ := endsParam_cases ends <;> rfl
  | chan direction elem =>
    cases direction with
    | receive => rfl
    | send => exact takeName_typeWord (by decide) _
    | both => exact takeName_typeWord (by decide) _
  | map key elem => exact takeName_typeWord (by decide) _
  | func signature => exact takeName_typeWord (by decide) _
  | struct fields => exact takeName_typeWord (by decide) _
  | interface elements => exact takeName_typeWord (by decide) _
  | qualified package name => rfl
  | pointer elem => rfl
  | slice elem => rfl
  | array length elem => rfl

theorem paramStart_tokens (tree : TypeTree) (ends : endsParam rest = true) :
    ParamStart (tree.tokens ++ rest) false (tree.tokens ++ rest) := by
  refine ⟨takeName_tokens tree ends, ?_, ?_⟩
  all_goals
    obtain ⟨token, more, tokens, opens, -⟩ := tokens_opens tree
    rw [tokens, List.cons_append]
  · refine ⟨Nat.le_refl _, ?_⟩
    obtain ⟨_, rfl⟩ | rfl | rfl | rfl := opensType_cases opens <;> rfl
  · exact head?_of_opensType opens rfl

theorem paramStart_dots (toks : List Token) : ParamStart (.mark .ellipsis :: toks) true toks :=
  ⟨rfl, ⟨Nat.le_succ _, rfl⟩, by simp⟩

/-- The entries a list of unnamed parameters is read as. -/
def entriesOf (variadic : Bool) : List TypeTree → List ParamEntry
  | [] => []
  | [.slice elem] =>
    if variadic then [⟨none, elem, true⟩] else [⟨none, .slice elem, false⟩]
  | first :: rest => ⟨none, first, false⟩ :: entriesOf variadic rest

theorem entriesOf_unnamed (variadic : Bool) (params : List TypeTree) :
    ∀ entry ∈ entriesOf variadic params, entry.name = none := by
  fun_induction entriesOf variadic params with
  | case1 => exact List.forall_mem_nil _
  | case2 elem => exact List.forall_mem_singleton.2 rfl
  | case3 elem => exact List.forall_mem_singleton.2 rfl
  | case4 first rest _ ih => exact List.forall_mem_cons.2 ⟨rfl, ih⟩

/-- A list that ends with a slice still does without its head, unless the slice is the
head. -/
theorem endsInSlice_tail {first : TypeTree} (slice : endsInSlice (first :: params) = true)
    (other : ∀ elem, first = .slice elem → params = [] → False) : endsInSlice params = true := by
  cases params with
  | nil =>
    cases first with
    | slice elem => exact (other elem rfl rfl).elim
    | _ => cases slice
  | cons second rest => exact slice

/-- The types of unnamed entries are those they were made from. -/
theorem paramTypes_entriesOf {start : Bool} (slice : variadic = true → endsInSlice params = true)
    (empty : params = [] → start = variadic) :
    paramTypes false 0 start (entriesOf variadic params) = .ok (params, variadic) := by
  fun_induction entriesOf variadic params generalizing start with
  | case1 =>
    rw [← empty rfl]
    rfl
  | case2 elem dots =>
    rw [dots]
    rfl
  | case3 elem dots =>
    rw [eq_false_of_ne_true dots]
    rfl
  | case4 first rest other ih =>
    have tail : variadic = true → endsInSlice rest = true := fun dots =>
      endsInSlice_tail (slice dots) other
    have last : rest = [] → false = variadic := by
      rintro rfl
      exact (eq_false_of_ne_true fun dots => absurd (tail dots) Bool.false_ne_true).symm
    show (paramTypes false 0 false (entriesOf variadic rest) >>= _) = _
    rw [ih tail last]
    rfl

theorem paramList_entriesOf (slice : (!variadic || endsInSlice params) = true) :
    paramList (entriesOf variadic params) = .ok (params, variadic) := by
  have unnamed : ((entriesOf variadic params).any fun entry => entry.name.isSome) = false := by
    rw [List.any_eq_false]
    intro entry mem
    rw [entriesOf_unnamed variadic params entry mem]
    exact Bool.false_ne_true
  rw [paramList, unnamed]
  apply paramTypes_entriesOf
  · rintro rfl
    exact slice
  · rintro rfl
    cases variadic with
    | false => rfl
    | true => cases slice

/-! ## Reading what was written -/

theorem paramTokens_cons (variadic : Bool) (first second : TypeTree) (others : List TypeTree) :
    paramTokens variadic (first :: second :: others) =
      first.tokens ++ .mark .comma :: paramTokens variadic (second :: others) := by
  cases first <;> rfl

theorem paramTokens_single (type : TypeTree) : paramTokens false [type] = type.tokens := by
  cases type <;> rfl

theorem resultTokens_cons (first second : TypeTree) (others : List TypeTree) :
    resultTokens (first :: second :: others) =
      .mark .lparen :: (paramTokens false (first :: second :: others) ++ [.mark .rparen]) := by
  rw [paramTokens_cons, List.append_assoc]
  rfl

theorem entriesOf_cons (variadic : Bool) (first second : TypeTree) (others : List TypeTree) :
    entriesOf variadic (first :: second :: others) =
      ⟨none, first, false⟩ :: entriesOf variadic (second :: others) := by
  cases first <;> rfl

/-- At the end of a variadic list the slice is read from its elements. -/
theorem reads_lastTokens (variadic : Bool)
    (h : Reads (readType line) (type.tokens ++ .mark .rparen :: rest) type
      (.mark .rparen :: rest)) :
    Reads (readParams line) (paramTokens variadic [type] ++ .mark .rparen :: rest)
      (entriesOf variadic [type]) rest := by
  cases type with
  | slice elem =>
    cases variadic with
    | true => exact reads_lastEntry (paramStart_dots _).entry (reads_slice.1 h)
    | false => exact reads_lastEntry (paramStart_tokens (.slice elem) rfl).entry h
  | _ => exact reads_lastEntry (paramStart_tokens _ rfl).entry h

theorem isNamed_cases (named : type.isNamed = true) :
    (∃ name, type = .ident name) ∨ ∃ package name, type = .qualified package name := by
  unfold TypeTree.isNamed at named
  split at named
  · exact .inl ⟨_, rfl⟩
  · exact .inr ⟨_, _, rfl⟩
  · cases named

theorem isTypeWord_of_isPlainWord (plain : isPlainWord name = true) : isTypeWord name = false := by
  simp only [isPlainWord, Bool.and_eq_true, Bool.not_eq_true'] at plain
  exact plain.2

theorem reads_named (named : type.isNamed = true) (plain : type.isPlain line = true)
    (ends : endsType rest = true) : Reads (readType line) (type.tokens ++ rest) type rest := by
  obtain ⟨name, rfl⟩ | ⟨package, name, rfl⟩ := isNamed_cases named
  · exact reads_ident (isTypeWord_of_isPlainWord plain) (endsType_iff.1 ends).2
  · simp only [TypeTree.isPlain, Bool.and_eq_true] at plain
    exact reads_qualified (isTypeWord_of_isPlainWord plain.1)

theorem reads_embeddedField (embeddable : type.isEmbeddable = true)
    (plain : type.isPlain line = true) (ends : endsMember rest = true) :
    Reads (readField line) (type.tokens ++ (tagTokens tag ++ rest))
      [⟨baseName type, true, tag, type, line⟩] rest := by
  cases type with
  | ident name =>
    exact reads_embeddedIdent (endsField_tagTokens tag ends) (tagged_tagTokens tag ends)
  | qualified package name => exact reads_embeddedQualified (tagged_tagTokens tag ends)
  | pointer elem =>
    exact reads_embeddedPointer (reads_named embeddable plain (endsType_tagTokens tag ends))
      (tagged_tagTokens tag ends)
  | _ => cases embeddable

theorem reads_embeddedElement (named : type.isNamed = true) (ends : endsMember rest = true) :
    Reads (readElement line) (type.tokens ++ rest) (.embedded type) rest := by
  obtain ⟨name, rfl⟩ | ⟨package, name, rfl⟩ := isNamed_cases named
  · exact reads_elementIdent ends
  · exact reads_elementQualified

theorem fieldTokens_cons (first second : FieldTree) (others : List FieldTree) :
    fieldTokens (first :: second :: others) =
      first.tokens ++ .mark .semicolon :: fieldTokens (second :: others) :=
  rfl

theorem elementTokens_cons (first second : ElementTree) (others : List ElementTree) :
    elementTokens (first :: second :: others) =
      first.tokens ++ .mark .semicolon :: elementTokens (second :: others) :=
  rfl

/-- A field goes on after what ends a field. -/
theorem fieldTokens_goes (field : FieldTree) (rest : List Token) :
    endsMember (field.tokens ++ rest) = false := by
  obtain ⟨name, embedded, tag, type, place⟩ := field
  cases embedded with
  | false => rfl
  | true =>
    obtain ⟨token, more, tokens, opens, -⟩ := tokens_opens type
    simp only [FieldTree.tokens, if_true, List.nil_append, tokens, List.cons_append]
    exact endsMember_of_opensType opens

theorem elementTokens_goes (element : ElementTree) (rest : List Token) :
    endsMember (element.tokens ++ rest) = false := by
  cases element with
  | method name signature place => rfl
  | embedded type =>
    obtain ⟨token, more, tokens, opens, -⟩ := tokens_opens type
    simp only [ElementTree.tokens, tokens, List.cons_append]
    exact endsMember_of_opensType opens

mutual

theorem reads_tokens : ∀ (tree : TypeTree) {line : Nat} {rest : List Token},
    tree.isPlain line = true → endsType rest = true →
      Reads (readType line) (tree.tokens ++ rest) tree rest
  | .ident name, _, _ => fun plain ends => reads_named rfl plain ends
  | .qualified package name, _, _ => fun plain ends => reads_named rfl plain ends
  | .pointer elem, _, _ => fun plain ends => reads_pointer (reads_tokens elem plain ends)
  | .slice elem, _, _ => fun plain ends => reads_slice.2 (reads_tokens elem plain ends)
  | .array length elem, _, _ => fun plain ends =>
    reads_array length (reads_tokens elem plain ends)
  | .map key elem, _, _ => by
    intro plain ends
    simp only [TypeTree.isPlain, Bool.and_eq_true] at plain
    simp only [TypeTree.tokens, List.cons_append, List.append_assoc]
    exact reads_map (reads_tokens key plain.1 rfl) (reads_tokens elem plain.2 ends)
  | .chan .both elem, _, _ => by
    intro plain ends
    rw [TypeTree.tokens, List.cons_append]
    split
    · simp only [List.cons_append, List.append_assoc, List.nil_append]
      exact reads_chan (reads_parens (reads_tokens elem plain rfl)) (by simp)
    · next other =>
      obtain ⟨token, more, tokens, -, arrow⟩ := tokens_opens elem
      refine reads_chan (reads_tokens elem plain ends) ?_
      rw [tokens]
      rintro ⟨⟩
      exact arrow (eq_false_of_ne_true other) rfl
  | .chan .send elem, _, _ => fun plain ends => reads_send (reads_tokens elem plain ends)
  | .chan .receive elem, _, _ => fun plain ends => reads_receive (reads_tokens elem plain ends)
  | .func signature, _, _ => fun plain ends => reads_func (reads_signature signature plain ends)
  | .struct fields, _, _ => by
    intro plain _
    simp only [TypeTree.tokens, List.cons_append, List.append_assoc, List.nil_append]
    exact reads_struct (reads_fieldTokens fields plain)
  | .interface elements, _, _ => by
    intro plain _
    simp only [TypeTree.tokens, List.cons_append, List.append_assoc, List.nil_append]
    exact reads_interface (reads_elementTokens elements plain)

theorem reads_signature : ∀ (signature : SignatureTree) {line : Nat} {rest : List Token},
    signature.isPlain line = true → endsType rest = true →
      Reads (readSignature line) (signature.tokens ++ rest) signature rest
  | ⟨params, [], variadic⟩, _, _ => by
    intro plain ends
    simp only [SignatureTree.isPlain, Bool.and_eq_true] at plain
    obtain ⟨⟨first, -⟩, slice⟩ := plain
    simp only [SignatureTree.tokens, resultTokens, List.cons_append, List.append_assoc,
      List.nil_append]
    exact reads_noResult (paramList_entriesOf slice) (reads_paramTokens variadic params first)
      (endsType_iff.1 ends).1
  | ⟨params, [result], variadic⟩, _, _ => by
    intro plain ends
    simp only [SignatureTree.isPlain, arePlainTypes, Bool.and_eq_true] at plain
    obtain ⟨⟨first, second, -⟩, slice⟩ := plain
    obtain ⟨token, more, tokens, opens, -⟩ := tokens_opens result
    simp only [SignatureTree.tokens, resultTokens, List.cons_append, List.append_assoc]
    refine reads_result (paramList_entriesOf slice) (reads_paramTokens variadic params first)
      (reads_tokens result second ends) ?_ ?_
    · rw [tokens]
      exact startsType_of_opensType opens
    · rw [tokens]
      exact head?_of_opensType opens rfl
  | ⟨params, result :: next :: others, variadic⟩, _, _ => by
    intro plain _
    simp only [SignatureTree.isPlain, Bool.and_eq_true] at plain
    obtain ⟨⟨first, second⟩, slice⟩ := plain
    simp only [SignatureTree.tokens, resultTokens_cons, List.cons_append, List.append_assoc,
      List.nil_append]
    exact reads_results (paramList_entriesOf slice) (reads_paramTokens variadic params first)
      (reads_paramTokens false (result :: next :: others) second) (paramList_entriesOf rfl)

theorem reads_paramTokens (variadic : Bool) : ∀ (params : List TypeTree) {line : Nat}
    {rest : List Token}, arePlainTypes line params = true →
      Reads (readParams line) (paramTokens variadic params ++ .mark .rparen :: rest)
        (entriesOf variadic params) rest
  | [], _, _ => fun _ => reads_noParams
  | [single], _, _ => by
    intro plain
    simp only [arePlainTypes, Bool.and_true] at plain
    exact reads_lastTokens variadic (reads_tokens single plain rfl)
  | first :: second :: others, _, _ => by
    intro plain
    rw [arePlainTypes, Bool.and_eq_true] at plain
    rw [paramTokens_cons, entriesOf_cons, List.append_assoc]
    exact reads_nextEntry (paramStart_tokens first rfl).entry (reads_tokens first plain.1 rfl)
      (reads_paramTokens variadic (second :: others) plain.2)

theorem reads_fieldTree : ∀ (field : FieldTree) {line : Nat} {rest : List Token},
    field.isPlain line = true → endsMember rest = true →
      Reads (readField line) (field.tokens ++ rest) [field] rest
  | ⟨name, true, tag, type, place⟩, _, _ => by
    intro plain ends
    simp only [FieldTree.isPlain, Bool.and_eq_true, beq_iff_eq, Bool.not_true, Bool.false_or]
      at plain
    obtain ⟨⟨⟨-, inner⟩, rfl⟩, embeddable, rfl⟩ := plain
    simp only [FieldTree.tokens, if_true, List.nil_append, List.append_assoc]
    exact reads_embeddedField embeddable inner ends
  | ⟨name, false, tag, type, place⟩, _, _ => by
    intro plain ends
    simp only [FieldTree.isPlain, Bool.and_eq_true, beq_iff_eq] at plain
    obtain ⟨⟨⟨-, inner⟩, rfl⟩, -⟩ := plain
    have read := reads_tokens type inner (endsType_tagTokens tag ends)
    obtain ⟨token, more, tokens, opens, -⟩ := tokens_opens type
    rw [tokens] at read
    simp only [FieldTree.tokens, Bool.false_eq_true, if_false, List.cons_append, List.nil_append,
      List.append_assoc, tokens]
    exact reads_namedField opens read (tagged_tagTokens tag ends)

theorem reads_fieldTokens : ∀ (fields : List FieldTree) {line : Nat} {rest : List Token},
    arePlainFields line fields = true →
      Reads (readFields line) (fieldTokens fields ++ .mark .rbrace :: rest) fields rest
  | [], _, _ => fun _ => reads_noFields
  | [single], _, _ => by
    intro plain
    simp only [arePlainFields, Bool.and_true] at plain
    exact reads_field (reads_fieldTree single plain rfl) (fieldTokens_goes single _)
      reads_noFields
  | first :: second :: others, _, _ => by
    intro plain
    rw [arePlainFields, Bool.and_eq_true] at plain
    rw [fieldTokens_cons, List.append_assoc]
    exact reads_field (reads_fieldTree first plain.1 rfl) (fieldTokens_goes first _)
      (reads_fieldsSemicolon (reads_fieldTokens (second :: others) plain.2))

theorem reads_elementTree : ∀ (element : ElementTree) {line : Nat} {rest : List Token},
    element.isPlain line = true → endsMember rest = true →
      Reads (readElement line) (element.tokens ++ rest) element rest
  | .method name signature place, _, _ => by
    intro plain ends
    simp only [ElementTree.isPlain, Bool.and_eq_true, beq_iff_eq] at plain
    obtain ⟨⟨-, inner⟩, rfl⟩ := plain
    exact reads_method (reads_signature signature inner (endsType_of_endsMember ends))
      (signature_opens signature _)
  | .embedded type, _, _ => by
    intro plain ends
    simp only [ElementTree.isPlain, Bool.and_eq_true] at plain
    exact reads_embeddedElement plain.1 ends

theorem reads_elementTokens : ∀ (elements : List ElementTree) {line : Nat} {rest : List Token},
    arePlainElements line elements = true →
      Reads (readElements line) (elementTokens elements ++ .mark .rbrace :: rest) elements rest
  | [], _, _ => fun _ => reads_noElements
  | [single], _, _ => by
    intro plain
    simp only [arePlainElements, Bool.and_true] at plain
    exact reads_element (reads_elementTree single plain rfl) (elementTokens_goes single _)
      reads_noElements
  | first :: second :: others, _, _ => by
    intro plain
    rw [arePlainElements, Bool.and_eq_true] at plain
    rw [elementTokens_cons, List.append_assoc]
    exact reads_element (reads_elementTree first plain.1 rfl) (elementTokens_goes first _)
      (reads_elementsSemicolon (reads_elementTokens (second :: others) plain.2))

end

/-! ## The text of a type -/

/-- The tokens can be read. -/
def areReadable (toks : List Token) : Bool :=
  toks.all Token.isReadable

theorem areReadable_cons {token : Token} (readable : token.isReadable = true)
    (others : areReadable toks = true) : areReadable (token :: toks) = true := by
  rw [areReadable, List.all_cons, readable]
  exact others

theorem areReadable_append (first : areReadable toks = true) (others : areReadable more = true) :
    areReadable (toks ++ more) = true := by
  rw [areReadable, List.all_append, Bool.and_eq_true]
  exact ⟨first, others⟩

theorem isReadable_of_isPlainWord (plain : isPlainWord name = true) :
    (Token.word name).isReadable = true := by
  simp only [isPlainWord, Bool.and_eq_true] at plain
  exact plain.1

theorem areReadable_tagTokens (tag : String) : areReadable (tagTokens tag) = true := by
  unfold tagTokens
  split <;> rfl

theorem areReadable_lastTokens (variadic : Bool) (inner : areReadable type.tokens = true) :
    areReadable (paramTokens variadic [type]) = true := by
  cases type with
  | slice elem => cases variadic <;> exact inner
  | _ => exact inner

theorem areReadable_resultTokens {types : List TypeTree}
    (params : areReadable (paramTokens false types) = true) :
    areReadable (resultTokens types) = true := by
  cases types with
  | nil => rfl
  | cons first others =>
    cases others with
    | nil => rwa [paramTokens_single] at params
    | cons second others =>
      rw [resultTokens_cons]
      exact areReadable_append params rfl

mutual

theorem areReadable_tokens : ∀ (tree : TypeTree) {line : Nat}, tree.isPlain line = true →
    areReadable tree.tokens = true
  | .ident name, _ => fun plain => areReadable_cons (isReadable_of_isPlainWord plain) rfl
  | .qualified package name, _ => by
    intro plain
    simp only [TypeTree.isPlain, Bool.and_eq_true] at plain
    exact areReadable_cons (isReadable_of_isPlainWord plain.1)
      (areReadable_cons rfl (areReadable_cons (isReadable_of_isPlainWord plain.2) rfl))
  | .pointer elem, _ => fun plain => areReadable_tokens elem plain
  | .slice elem, _ => fun plain => areReadable_tokens elem plain
  | .array length elem, _ => fun plain => areReadable_tokens elem plain
  | .map key elem, _ => by
    intro plain
    simp only [TypeTree.isPlain, Bool.and_eq_true] at plain
    have first := areReadable_tokens key plain.1
    have second := areReadable_tokens elem plain.2
    exact areReadable_cons (by decide) (areReadable_append first second)
  | .chan .both elem, _ => by
    intro plain
    have inner := areReadable_tokens elem plain
    rw [TypeTree.tokens]
    split
    · exact areReadable_cons (by decide) (areReadable_append inner rfl)
    · exact areReadable_cons (by decide) inner
  | .chan .send elem, _ => fun plain =>
    areReadable_cons (by decide) (areReadable_tokens elem plain)
  | .chan .receive elem, _ => fun plain =>
    areReadable_cons rfl (areReadable_cons (by decide) (areReadable_tokens elem plain))
  | .func signature, _ => fun plain =>
    areReadable_cons (by decide) (areReadable_signature signature plain)
  | .struct fields, _ => fun plain =>
    areReadable_cons (by decide) (areReadable_append (areReadable_fieldTokens fields plain) rfl)
  | .interface elements, _ => fun plain =>
    areReadable_cons (by decide) (areReadable_append (areReadable_elementTokens elements plain) rfl)

theorem areReadable_signature : ∀ (signature : SignatureTree) {line : Nat},
    signature.isPlain line = true → areReadable signature.tokens = true
  | ⟨params, results, variadic⟩, _ => by
    intro plain
    simp only [SignatureTree.isPlain, Bool.and_eq_true] at plain
    have first := areReadable_paramTokens variadic params plain.1.1
    have second := areReadable_paramTokens false results plain.1.2
    exact areReadable_append first (areReadable_resultTokens second)

theorem areReadable_paramTokens (variadic : Bool) : ∀ (params : List TypeTree) {line : Nat},
    arePlainTypes line params = true → areReadable (paramTokens variadic params) = true
  | [], _ => fun _ => rfl
  | [single], _ => by
    intro plain
    simp only [arePlainTypes, Bool.and_true] at plain
    exact areReadable_lastTokens variadic (areReadable_tokens single plain)
  | first :: second :: others, _ => by
    intro plain
    rw [arePlainTypes, Bool.and_eq_true] at plain
    rw [paramTokens_cons]
    exact areReadable_append (areReadable_tokens first plain.1)
      (areReadable_paramTokens variadic (second :: others) plain.2)

theorem areReadable_field : ∀ (field : FieldTree) {line : Nat}, field.isPlain line = true →
    areReadable field.tokens = true
  | ⟨name, embedded, tag, type, place⟩, _ => by
    intro plain
    simp only [FieldTree.isPlain, Bool.and_eq_true] at plain
    obtain ⟨⟨⟨word, inner⟩, -⟩, -⟩ := plain
    have after := areReadable_append (areReadable_tokens type inner) (areReadable_tagTokens tag)
    cases embedded with
    | true => exact after
    | false => exact areReadable_cons (isReadable_of_isPlainWord word) after

theorem areReadable_fieldTokens : ∀ (fields : List FieldTree) {line : Nat},
    arePlainFields line fields = true → areReadable (fieldTokens fields) = true
  | [], _ => fun _ => rfl
  | [single], _ => by
    intro plain
    simp only [arePlainFields, Bool.and_true] at plain
    exact areReadable_field single plain
  | first :: second :: others, _ => by
    intro plain
    rw [arePlainFields, Bool.and_eq_true] at plain
    exact areReadable_append (areReadable_field first plain.1)
      (areReadable_fieldTokens (second :: others) plain.2)

theorem areReadable_element : ∀ (element : ElementTree) {line : Nat},
    element.isPlain line = true → areReadable element.tokens = true
  | .method name signature place, _ => by
    intro plain
    simp only [ElementTree.isPlain, Bool.and_eq_true] at plain
    obtain ⟨⟨word, inner⟩, -⟩ := plain
    exact areReadable_cons (isReadable_of_isPlainWord word) (areReadable_signature signature inner)
  | .embedded type, _ => by
    intro plain
    simp only [ElementTree.isPlain, Bool.and_eq_true] at plain
    exact areReadable_tokens type plain.2

theorem areReadable_elementTokens : ∀ (elements : List ElementTree) {line : Nat},
    arePlainElements line elements = true → areReadable (elementTokens elements) = true
  | [], _ => fun _ => rfl
  | [single], _ => by
    intro plain
    simp only [arePlainElements, Bool.and_true] at plain
    exact areReadable_element single plain
  | first :: second :: others, _ => by
    intro plain
    rw [arePlainElements, Bool.and_eq_true] at plain
    exact areReadable_append (areReadable_element first plain.1)
      (areReadable_elementTokens (second :: others) plain.2)

end

/-- A type that can be written is read back from any text it is written as, whatever the
blanks and the quotes, and nothing is left over. -/
theorem typeOf_written {tree : TypeTree} (plain : tree.isPlain line = true) :
    Written tree.tokens (write tree.tokens) ∧ Reads (readType line) tree.tokens tree [] ∧
      ∀ text, Written tree.tokens text → typeOf line text = .ok tree := by
  have read := reads_tokens tree plain (rfl : endsType [] = true)
  rw [List.append_nil] at read
  refine ⟨written_write (List.all_eq_true.1 (areReadable_tokens tree plain)), read, ?_⟩
  intro text written
  obtain ⟨fewer, read⟩ := read
  rw [typeOf, tokens_of_written written]
  show (readType line tree.tokens >>= _) = _
  rw [read]
  rfl

/-- A type with every kind of part. -/
def sampleType : TypeTree :=
  .func {
    params := [
      .map (.ident "string") (.chan .both (.chan .receive (.array 4 (.qualified "time" "Time")))),
      .slice (.chan .send (.chan .receive (.ident "int")))]
    results := [
      .struct [
        { name := "Base", embedded := true, tag := "", type := .pointer (.qualified "core" "Base"),
          line := 7 },
        { name := "name", embedded := false, tag := "json:\"n\"", type := .ident "string",
          line := 7 }],
      .interface [
        .embedded (.ident "error"),
        .method "Do" { params := [.slice (.ident "byte")], results := [.ident "bool"],
                       variadic := false } 7]]
    variadic := true }

/-- The sample can be written, and its text is read back. -/
theorem typeOf_written_sample : sampleType.isPlain 7 = true ∧
    typeOf 7 (write sampleType.tokens) = .ok sampleType := by
  have plain : sampleType.isPlain 7 = true := by decide
  exact ⟨plain, (typeOf_written plain).2.2 _ (typeOf_written plain).1⟩

end Source

end GoAtlas
