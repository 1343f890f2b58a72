import GoAtlas.Proofs.Constraint.Words
import GoAtlas.Proofs.Source.TypeSyntax

/-!
# The grammar of types

`Forms` says which tokens form a type, a signature, a list of parameters or a member, where
some rest follows them. The rest belongs to the grammar, since a reader looks ahead: a word is
an embedded field only where the field ends, and a signature has a result where a type starts.

The readers read the phrases of the grammar and nothing else (`isRead_iff_startsWith`). What
holds of all that is read can so be proved by one induction over the grammar.
-/

namespace GoAtlas.Source

open Constraint (bind_eq_ok)

/-- What the readers read. The parameters have their closing parenthesis, and the fields of a
struct and the elements of an interface have their closing brace. -/
inductive Phrase where
  | type (tree : TypeTree)
  | signature (tree : SignatureTree)
  | params (entries : List ParamEntry)
  | field (fields : List FieldTree)
  | fields (fields : List FieldTree)
  | element (element : ElementTree)
  | elements (elements : List ElementTree)

/-- What stands before the type of a parameter: its name and its dots, if it has them. -/
def entryLead (called : Option String) (dots : Bool) : List Token :=
  called.toList.map .word ++ if dots then [.mark .ellipsis] else []

/-- More names, each after a comma. -/
def nameTokens (names : List String) : List Token :=
  names.flatMap fun name => [.mark .comma, .word name]

/-- The tokens are the tag of a field before the rest. Without them the tag is empty. -/
inductive IsTag : List Token → String → List Token → Prop
  | written {tag : String} {rest : List Token} : IsTag [.literal tag] tag rest
  | missing {rest : List Token} : (∀ tag, rest.head? ≠ some (.literal tag)) → IsTag [] "" rest

/-- The tokens form the phrase, on a line, where the rest follows them. -/
inductive Forms (line : Nat) : Phrase → List Token → List Token → Prop
  | pointer {elem own rest} : Forms line (.type elem) own rest →
      Forms line (.type (.pointer elem)) (.mark .star :: own) rest
  | slice {elem own rest} : Forms line (.type elem) own rest →
      Forms line (.type (.slice elem)) (.mark .lbracket :: .mark .rbracket :: own) rest
  | array {length elem own rest} : Forms line (.type elem) own rest →
      Forms line (.type (.array length elem))
        (.mark .lbracket :: .int length :: .mark .rbracket :: own) rest
  | parens {tree own rest} : Forms line (.type tree) own (.mark .rparen :: rest) →
      Forms line (.type tree) (.mark .lparen :: (own ++ [.mark .rparen])) rest
  | map {key elem own other rest} :
      Forms line (.type key) own (.mark .rbracket :: (other ++ rest)) →
      Forms line (.type elem) other rest →
      Forms line (.type (.map key elem))
        (.word "map" :: .mark .lbracket :: (own ++ .mark .rbracket :: other)) rest
  | receive {elem own rest} : Forms line (.type elem) own rest →
      Forms line (.type (.chan .receive elem)) (.mark .arrow :: .word "chan" :: own) rest
  | send {elem own rest} : Forms line (.type elem) own rest →
      Forms line (.type (.chan .send elem)) (.word "chan" :: .mark .arrow :: own) rest
  | chan {elem own rest} : Forms line (.type elem) own rest → own.head? ≠ some (.mark .arrow) →
      Forms line (.type (.chan .both elem)) (.word "chan" :: own) rest
  | func {tree own rest} : Forms line (.signature tree) own rest →
      Forms line (.type (.func tree)) (.word "func" :: own) rest
  | struct {fields own rest} : Forms line (.fields fields) own rest →
      Forms line (.type (.struct fields)) (.word "struct" :: .mark .lbrace :: own) rest
  | interface {elements own rest} : Forms line (.elements elements) own rest →
      Forms line (.type (.interface elements)) (.word "interface" :: .mark .lbrace :: own) rest
  | qualified {package name rest} : isTypeWord package = false →
      Forms line (.type (.qualified package name)) [.word package, .mark .dot, .word name] rest
  | ident {name rest} : isTypeWord name = false → rest.head? ≠ some (.mark .dot) →
      Forms line (.type (.ident name)) [.word name] rest
  | noResult {entries params variadic own rest} : Forms line (.params entries) own rest →
      paramList entries = .ok (params, variadic) → startsType rest = false →
      Forms line (.signature ⟨params, [], variadic⟩) (.mark .lparen :: own) rest
  | result {entries params variadic tree own other rest} :
      Forms line (.params entries) own (other ++ rest) →
      paramList entries = .ok (params, variadic) →
      Forms line (.type tree) other rest → other.head? ≠ some (.mark .lparen) →
      Forms line (.signature ⟨params, [tree], variadic⟩) (.mark .lparen :: (own ++ other)) rest
  | results {entries params variadic others results flag own other rest} :
      Forms line (.params entries) own (.mark .lparen :: (other ++ rest)) →
      paramList entries = .ok (params, variadic) →
      Forms line (.params others) other rest → paramList others = .ok (results, flag) →
      Forms line (.signature ⟨params, results, variadic⟩)
        (.mark .lparen :: (own ++ .mark .lparen :: other)) rest
  | noParams {rest} : Forms line (.params []) [.mark .rparen] rest
  | lastParam {called tree dots own rest} : (∀ name ∈ called, isTypeWord name = false) →
      Forms line (.type tree) own (.mark .rparen :: rest) →
      Forms line (.params [⟨called, tree, dots⟩])
        (entryLead called dots ++ (own ++ [.mark .rparen])) rest
  | nextParam {called tree dots entries own others rest} :
      (∀ name ∈ called, isTypeWord name = false) →
      Forms line (.type tree) own (.mark .comma :: (others ++ rest)) →
      Forms line (.params entries) others rest →
      Forms line (.params (⟨called, tree, dots⟩ :: entries))
        (entryLead called dots ++ (own ++ .mark .comma :: others)) rest
  | embeddedPointer {elem tag own marks rest} : Forms line (.type elem) own (marks ++ rest) →
      IsTag marks tag rest →
      Forms line (.field [⟨baseName elem, true, tag, .pointer elem, line⟩])
        (.mark .star :: (own ++ marks)) rest
  | embeddedQualified {package name tag marks rest} : IsTag marks tag rest →
      Forms line (.field [⟨name, true, tag, .qualified package name, line⟩])
        (.word package :: .mark .dot :: .word name :: marks) rest
  | embeddedIdent {name tag marks rest} : IsTag marks tag rest →
      endsField (marks ++ rest) = true →
      Forms line (.field [⟨name, true, tag, .ident name, line⟩]) (.word name :: marks) rest
  | named {name names tag tree own marks rest} : Forms line (.type tree) own (marks ++ rest) →
      IsTag marks tag rest →
      Forms line (.field ((name :: names).map fun name => ⟨name, false, tag, tree, line⟩))
        (.word name :: (nameTokens names ++ (own ++ marks))) rest
  | noFields {rest} : Forms line (.fields []) [.mark .rbrace] rest
  | fieldsSemicolon {fields own rest} : Forms line (.fields fields) own rest →
      Forms line (.fields fields) (.mark .semicolon :: own) rest
  | nextFields {first fields own others rest} : Forms line (.field first) own (others ++ rest) →
      Forms line (.fields fields) others rest →
      Forms line (.fields (first ++ fields)) (own ++ others) rest
  | method {name tree own rest} : Forms line (.signature tree) own rest →
      Forms line (.element (.method name tree line)) (.word name :: own) rest
  | elementQualified {package name rest} :
      Forms line (.element (.embedded (.qualified package name)))
        [.word package, .mark .dot, .word name] rest
  | elementIdent {name rest} : rest.head? ≠ some (.mark .dot) →
      rest.head? ≠ some (.mark .lparen) →
      Forms line (.element (.embedded (.ident name))) [.word name] rest
  | noElements {rest} : Forms line (.elements []) [.mark .rbrace] rest
  | elementsSemicolon {elements own rest} : Forms line (.elements elements) own rest →
      Forms line (.elements elements) (.mark .semicolon :: own) rest
  | nextElement {first elements own others rest} :
      Forms line (.element first) own (others ++ rest) →
      Forms line (.elements elements) others rest →
      Forms line (.elements (first :: elements)) (own ++ others) rest

/-- The reader of the phrase takes it from the tokens and leaves the rest. -/
def Phrase.IsRead (line : Nat) : Phrase → List Token → List Token → Prop
  | .type tree, toks, rest => Reads (readType line) toks tree rest
  | .signature tree, toks, rest => Reads (readSignature line) toks tree rest
  | .params entries, toks, rest => Reads (readParams line) toks entries rest
  | .field trees, toks, rest => Reads (readField line) toks trees rest
  | .fields trees, toks, rest => Reads (readFields line) toks trees rest
  | .element tree, toks, rest => Reads (readElement line) toks tree rest
  | .elements trees, toks, rest => Reads (readElements line) toks trees rest

variable {line : Nat} {toks own more rest : List Token} {tree : TypeTree} {tag : String}
  {called : Option String} {dots : Bool}

/-! ## How a phrase starts -/

/-- What looks at one token finds the same where the first token is the same. -/
theorem congr_of_head? {look : List Token → Bool}
    (ahead : ∀ token more, look (token :: more) = look [token])
    (same : toks.head? = more.head?) : look toks = look more := by
  cases toks with
  | nil =>
    cases more with
    | nil => rfl
    | cons token more => cases same
  | cons token toks =>
    cases more with
    | nil => cases same
    | cons other more =>
      cases same
      rw [ahead token toks, ahead token more]

theorem startsType_cons (token : Token) (more : List Token) :
    startsType (token :: more) = startsType [token] := by
  cases token with
  | mark sign => cases sign <;> rfl
  | _ => rfl

theorem startsType_of_forms (forms : Forms line (.type tree) own rest) : startsType own = true := by
  cases forms <;> rfl

theorem head?_signature {signature : SignatureTree}
    (forms : Forms line (.signature signature) own rest) : own.head? = some (.mark .lparen) := by
  cases forms <;> rfl

theorem goes_of_field {fields : List FieldTree} (forms : Forms line (.field fields) own rest) :
    endsMember (own ++ more) = false := by
  cases forms <;> rfl

theorem goes_of_element {element : ElementTree} (forms : Forms line (.element element) own rest) :
    endsMember (own ++ more) = false := by
  cases forms <;> rfl

/-- The tokens that a type starts with. -/
theorem startsType_cases (starts : startsType toks = true) : ∃ token more, toks = token :: more ∧
    ((∃ name, token = .word name) ∨ token = .mark .star ∨ token = .mark .lbracket ∨
      token = .mark .lparen ∨ token = .mark .arrow) := by
  unfold startsType at starts
  split at starts
  · exact ⟨_, _, rfl, .inl ⟨_, rfl⟩⟩
  · exact ⟨_, _, rfl, .inr (.inl rfl)⟩
  · exact ⟨_, _, rfl, .inr (.inr (.inl rfl))⟩
  · exact ⟨_, _, rfl, .inr (.inr (.inr (.inl rfl)))⟩
  · exact ⟨_, _, rfl, .inr (.inr (.inr (.inr rfl)))⟩
  · cases starts

/-! ## Phrases are read -/

theorem IsTag.tagged {marks : List Token} (isTag : IsTag marks tag rest) :
    Tagged (marks ++ rest) tag rest := by
  cases isTag with
  | written => exact ⟨Nat.le_succ _, rfl⟩
  | missing plain =>
    refine ⟨Nat.le_refl _, ?_⟩
    show takeTag rest = ⟨"", rest, Nat.le_refl _⟩
    rw [takeTag]
    rintro tag more rfl
    exact plain tag rfl

theorem takeNames_nameTokens (names : List String) (starts : startsType toks = true) :
    ∃ most, takeNames (nameTokens names ++ toks) = .ok ⟨names, toks, most⟩ := by
  induction names with
  | nil =>
    obtain ⟨token, more, rfl, ⟨_, rfl⟩ | rfl | rfl | rfl | rfl⟩ := startsType_cases starts <;>
      exact ⟨Nat.le_refl _, rfl⟩
  | cons name names ih =>
    obtain ⟨most, taken⟩ := ih
    refine ⟨Nat.le_succ_of_le (Nat.le_succ_of_le most), ?_⟩
    show takeNames (.mark .comma :: .word name :: (nameTokens names ++ toks)) = _
    rw [takeNames, taken]
    rfl

/-- Names with a type after them do not end a field, and they are not qualified. -/
theorem goes_of_names (names : List String) (starts : startsType toks = true) :
    endsField (nameTokens names ++ toks) = false ∧
      (nameTokens names ++ toks).head? ≠ some (.mark .dot) := by
  cases names with
  | nil =>
    obtain ⟨token, more, rfl, ⟨_, rfl⟩ | rfl | rfl | rfl | rfl⟩ := startsType_cases starts <;>
      simp [nameTokens, endsField]
  | cons name names => simp [nameTokens, endsField]

theorem takeName_called {name : String} (plain : isTypeWord name = false)
    (goes : endsParam toks = false) (unqualified : toks.head? ≠ some (.mark .dot))
    (some : toks ≠ []) :
    ∃ most, takeName (.word name :: toks) = ⟨Option.some name, toks, most⟩ := by
  obtain ⟨next, toks, rfl⟩ := List.exists_cons_of_ne_nil some
  have other : ¬isTypeWord name = true := by simp [plain]
  refine ⟨Nat.le_succ _, ?_⟩
  cases next with
  | mark sign =>
    cases sign with
    | dot => exact absurd rfl unqualified
    | comma => cases goes
    | rparen => cases goes
    | _ => exact if_neg other
  | _ => exact if_neg other

/-- Before the end of a parameter a type is not taken for a name. -/
theorem takeName_forms (forms : Forms line (.type tree) own rest) (ends : endsParam more = true) :
    takeName (own ++ more) = ⟨none, own ++ more, Nat.le_refl _⟩ := by
  cases forms with
  | ident => obtain ⟨_, rfl⟩ | ⟨_, rfl⟩ := endsParam_cases ends <;> rfl
  | map => exact takeName_typeWord (by decide) _
  | send => exact takeName_typeWord (by decide) _
  | chan => exact takeName_typeWord (by decide) _
  | func => exact takeName_typeWord (by decide) _
  | struct => exact takeName_typeWord (by decide) _
  | interface => exact takeName_typeWord (by decide) _
  | _ => rfl

theorem takeDots_type (starts : startsType toks = true) :
    takeDots toks = ⟨false, toks, Nat.le_refl _⟩ := by
  obtain ⟨token, more, rfl, ⟨_, rfl⟩ | rfl | rfl | rfl | rfl⟩ := startsType_cases starts <;> rfl

theorem startsType_append (forms : Forms line (.type tree) own rest) :
    startsType (own ++ more) = true := by
  obtain ⟨token, others, rfl, -⟩ := startsType_cases (startsType_of_forms forms)
  rw [← startsType_of_forms forms]
  exact congr_of_head? startsType_cons rfl

/-- An entry starts with its name and its dots, if it has them. -/
theorem entryStart_forms (plain : ∀ name ∈ called, isTypeWord name = false)
    (forms : Forms line (.type tree) own rest) (ends : endsParam more = true) :
    EntryStart (entryLead called dots ++ (own ++ more)) called dots (own ++ more) := by
  have starts : startsType (own ++ more) = true := startsType_append forms
  cases called with
  | none =>
    cases dots with
    | true =>
      exact ⟨⟨_, Nat.le_refl _, Nat.le_succ _, rfl, rfl⟩, by simp [entryLead]⟩
    | false =>
      have unnamed := takeName_forms forms ends
      refine ⟨⟨own ++ more, Nat.le_refl _, Nat.le_refl _, unnamed, takeDots_type starts⟩, ?_⟩
      obtain ⟨token, others, whole, ⟨_, rfl⟩ | rfl | rfl | rfl | rfl⟩ := startsType_cases starts <;>
        simp [entryLead, whole]
  | some name =>
    have word := plain name rfl
    cases dots with
    | true =>
      have goes : (Token.mark .ellipsis :: (own ++ more)).head? ≠ some (.mark .dot) := by simp
      obtain ⟨most, taken⟩ := takeName_called word rfl goes (List.cons_ne_nil _ _)
      exact ⟨⟨_, most, Nat.le_succ _, taken, rfl⟩, by simp [entryLead]⟩
    | false =>
      have goes : endsParam (own ++ more) = false ∧ (own ++ more).head? ≠ some (.mark .dot) ∧
          own ++ more ≠ [] := by
        obtain ⟨_, others, whole, ⟨_, rfl⟩ | rfl | rfl | rfl | rfl⟩ := startsType_cases starts <;>
          simp [whole, endsParam]
      obtain ⟨most, taken⟩ := takeName_called word goes.1 goes.2.1 goes.2.2
      exact ⟨⟨_, most, Nat.le_refl _, taken, takeDots_type starts⟩, by simp [entryLead]⟩

/-- What forms a phrase is read as it. -/
theorem Forms.isRead {phrase : Phrase} (forms : Forms line phrase own rest) :
    phrase.IsRead line (own ++ rest) rest := by
  induction forms with
  | pointer _ ih => exact reads_pointer ih
  | slice _ ih => exact reads_slice.2 ih
  | array _ ih => exact reads_array _ ih
  | parens _ ih =>
    rw [List.cons_append, List.append_assoc]
    exact reads_parens ih
  | map _ _ first second =>
    simp only [List.cons_append, List.append_assoc]
    exact reads_map first second
  | receive _ ih => exact reads_receive ih
  | send _ ih => exact reads_send ih
  | chan forms plain ih =>
    refine reads_chan ih ?_
    obtain ⟨token, more, rfl, -⟩ := startsType_cases (startsType_of_forms forms)
    exact plain
  | func _ ih => exact reads_func ih
  | struct _ ih => exact reads_struct ih
  | interface _ ih => exact reads_interface ih
  | qualified plain => exact reads_qualified plain
  | ident plain ends => exact reads_ident plain ends
  | noResult _ list plain ih => exact reads_noResult list ih plain
  | result _ list forms bare first second =>
    rw [List.cons_append, List.append_assoc]
    refine reads_result list first second (startsType_append forms) ?_
    obtain ⟨token, more, rfl, -⟩ := startsType_cases (startsType_of_forms forms)
    exact bare
  | results _ list _ types first second =>
    simp only [List.cons_append, List.append_assoc]
    exact reads_results list first second types
  | noParams => exact reads_noParams
  | lastParam plain forms ih =>
    simp only [List.append_assoc]
    exact reads_lastEntry (entryStart_forms plain forms rfl) ih
  | nextParam plain forms _ first others =>
    simp only [List.cons_append, List.append_assoc]
    exact reads_nextEntry (entryStart_forms plain forms rfl) first others
  | embeddedPointer _ isTag ih =>
    rw [List.cons_append, List.append_assoc]
    exact reads_embeddedPointer ih isTag.tagged
  | embeddedQualified isTag => exact reads_embeddedQualified isTag.tagged
  | embeddedIdent isTag ends => exact reads_embeddedIdent ends isTag.tagged
  | @named name names tag tree own marks rest forms isTag ih =>
    have starts : startsType (own ++ (marks ++ rest)) = true := startsType_append forms
    simp only [List.cons_append, List.append_assoc]
    obtain ⟨goes, unqualified⟩ := goes_of_names names starts
    exact reads_namedFields (takeNames_nameTokens names starts) goes unqualified ih isTag.tagged
  | noFields => exact reads_noFields
  | fieldsSemicolon _ ih => exact reads_fieldsSemicolon ih
  | nextFields forms _ first others =>
    rw [List.append_assoc]
    exact reads_field first (goes_of_field forms) others
  | method forms ih =>
    refine reads_method ih (List.head?_append.trans ?_)
    rw [head?_signature forms]
    rfl
  | elementQualified => exact reads_elementQualified
  | elementIdent unqualified bare => exact reads_elementName unqualified bare
  | noElements => exact reads_noElements
  | elementsSemicolon _ ih => exact reads_elementsSemicolon ih
  | nextElement forms _ first others =>
    rw [List.append_assoc]
    exact reads_element first (goes_of_element forms) others

/-! ## What is read is a phrase -/

theorem eq_cons_of_expect {sign : Mark} {nothing : Unit} {fewer : rest.length < toks.length}
    (h : expect sign toks = .ok ⟨nothing, rest, fewer⟩) : toks = .mark sign :: rest := by
  unfold expect at h
  split at h
  · split at h
    · next same =>
      cases h
      rw [same]
    · cases h
  · cases h

theorem eq_cons_of_expectWord {word : String} {fewer : rest.length < toks.length}
    (h : expectWord toks = .ok ⟨word, rest, fewer⟩) : toks = .word word :: rest := by
  unfold expectWord at h
  split at h
  · cases h
    rfl
  · cases h

theorem lead_of_taken {after : List Token} {most : after.length ≤ toks.length}
    {least : more.length ≤ after.length} (named : takeName toks = ⟨called, after, most⟩)
    (taken : takeDots after = ⟨dots, more, least⟩) :
    toks = entryLead called dots ++ more ∧ ∀ name ∈ called, isTypeWord name = false := by
  have dotted : after = (if dots then [.mark .ellipsis] else []) ++ more := by
    unfold takeDots at taken
    split at taken <;>
    · cases taken
      rfl
  unfold takeName at named
  split at named
  case h_4 name next rest _ _ _ =>
    split at named
    · cases named
      exact ⟨dotted, by simp⟩
    · next plain =>
      cases named
      rw [dotted]
      exact ⟨by simp [entryLead], by simpa using plain⟩
  all_goals
    cases named
    exact ⟨dotted, by simp⟩

theorem isTag_of_takeTag {most : rest.length ≤ toks.length}
    (taken : takeTag toks = ⟨tag, rest, most⟩) :
    ∃ marks, toks = marks ++ rest ∧ IsTag marks tag rest := by
  unfold takeTag at taken
  split at taken
  · cases taken
    exact ⟨_, rfl, .written⟩
  · next plain =>
    cases taken
    refine ⟨[], rfl, .missing fun tag literal => ?_⟩
    obtain ⟨more, rfl⟩ := List.head?_eq_some_iff.1 literal
    exact plain _ _ rfl

theorem eq_of_takeNames {names : List String} {most : rest.length ≤ toks.length}
    (taken : takeNames toks = .ok ⟨names, rest, most⟩) : toks = nameTokens names ++ rest := by
  fun_induction takeNames toks generalizing names with
  | case1 name more ih =>
    obtain ⟨⟨others, _, _⟩, inner, done⟩ := bind_eq_ok.1 taken
    cases done
    rw [ih inner]
    rfl
  | case2 => cases taken
  | case3 =>
    cases taken
    rfl

/-- Tokens before the rest form the phrase. -/
def Phrase.StartsWith (line : Nat) (phrase : Phrase) (toks rest : List Token) : Prop :=
  ∃ own, toks = own ++ rest ∧ Forms line phrase own rest

/-- What is read from fewer tokens is a phrase. -/
def Below (line limit : Nat) : Prop :=
  ∀ (phrase : Phrase) {toks rest : List Token}, toks.length < limit →
    phrase.IsRead line toks rest → phrase.StartsWith line toks rest

theorem Below.mono {limit other : Nat} (below : Below line limit) (less : other ≤ limit) :
    Below line other :=
  fun phrase _ _ fewer => below phrase (Nat.lt_of_lt_of_le fewer less)

section

variable (below : Below line toks.length)

include below

theorem startsWith_type (read : Reads (readType line) toks tree rest) :
    Phrase.StartsWith line (.type tree) toks rest := by
  obtain ⟨fewer, read⟩ := read
  rw [readType.eq_def] at read
  split at read
  · obtain ⟨⟨elem, _, _⟩, inner, done⟩ := bind_eq_ok.1 read
    cases done
    obtain ⟨own, rfl, forms⟩ := below (.type elem) (Nat.lt_succ_self _) ⟨_, inner⟩
    exact ⟨_, rfl, .pointer forms⟩
  · obtain ⟨⟨elem, _, _⟩, inner, done⟩ := bind_eq_ok.1 read
    cases done
    obtain ⟨own, rfl, forms⟩ :=
      below (.type elem) (Nat.lt_succ_of_lt (Nat.lt_succ_self _)) ⟨_, inner⟩
    exact ⟨_, rfl, .slice forms⟩
  · obtain ⟨⟨_, more, shorter⟩, closed, read⟩ := bind_eq_ok.1 read
    obtain ⟨⟨elem, _, _⟩, inner, done⟩ := bind_eq_ok.1 read
    cases done
    obtain rfl := eq_cons_of_expect closed
    obtain ⟨own, rfl, forms⟩ :=
      below (.type elem) (Nat.lt_succ_of_lt (Nat.lt_succ_of_lt shorter)) ⟨_, inner⟩
    exact ⟨_, rfl, .array forms⟩
  · cases read
  · obtain ⟨⟨inner, more, _⟩, first, read⟩ := bind_eq_ok.1 read
    obtain ⟨⟨_, _, _⟩, closed, done⟩ := bind_eq_ok.1 read
    cases done
    obtain rfl := eq_cons_of_expect closed
    obtain ⟨own, rfl, forms⟩ := below (.type tree) (Nat.lt_succ_self _) ⟨_, first⟩
    exact ⟨_, by simp, .parens forms⟩
  · obtain ⟨⟨word, more, shorter⟩, next, read⟩ := bind_eq_ok.1 read
    obtain rfl := eq_cons_of_expectWord next
    dsimp only at read
    split at read
    · next isChan =>
      obtain ⟨⟨elem, _, _⟩, inner, done⟩ := bind_eq_ok.1 read
      cases done
      obtain ⟨own, rfl, forms⟩ := below (.type elem) (Nat.lt_succ_of_lt shorter) ⟨_, inner⟩
      exact ⟨_, by simp [isChan], .receive forms⟩
    · cases read
  · obtain ⟨⟨_, after, shorter⟩, opened, read⟩ := bind_eq_ok.1 read
    obtain ⟨⟨key, more, less⟩, first, read⟩ := bind_eq_ok.1 read
    obtain ⟨⟨_, between, least⟩, closed, read⟩ := bind_eq_ok.1 read
    obtain ⟨⟨elem, _, _⟩, second, done⟩ := bind_eq_ok.1 read
    cases done
    obtain rfl := eq_cons_of_expect opened
    obtain rfl := eq_cons_of_expect closed
    have bound := Nat.lt_trans least (Nat.lt_trans less shorter)
    obtain ⟨other, rfl, others⟩ := below (.type elem) (Nat.lt_succ_of_lt bound) ⟨_, second⟩
    obtain ⟨own, rfl, forms⟩ := below (.type key) (Nat.lt_succ_of_lt shorter) ⟨_, first⟩
    exact ⟨_, by simp, .map forms others⟩
  · obtain ⟨⟨elem, _, _⟩, inner, done⟩ := bind_eq_ok.1 read
    cases done
    obtain ⟨own, rfl, forms⟩ :=
      below (.type elem) (Nat.lt_succ_of_lt (Nat.lt_succ_self _)) ⟨_, inner⟩
    exact ⟨_, rfl, .send forms⟩
  · next plain =>
    obtain ⟨⟨elem, _, _⟩, inner, done⟩ := bind_eq_ok.1 read
    cases done
    obtain ⟨own, rfl, forms⟩ := below (.type elem) (Nat.lt_succ_self _) ⟨_, inner⟩
    refine ⟨_, rfl, .chan forms fun arrow => ?_⟩
    obtain ⟨more, rfl⟩ := List.head?_eq_some_iff.1 arrow
    exact plain _ rfl
  · obtain ⟨⟨signature, _, _⟩, inner, done⟩ := bind_eq_ok.1 read
    cases done
    obtain ⟨own, rfl, forms⟩ := below (.signature signature) (Nat.lt_succ_self _) ⟨_, inner⟩
    exact ⟨_, rfl, .func forms⟩
  · obtain ⟨⟨_, after, shorter⟩, opened, read⟩ := bind_eq_ok.1 read
    obtain ⟨⟨fields, _, _⟩, inner, done⟩ := bind_eq_ok.1 read
    cases done
    obtain rfl := eq_cons_of_expect opened
    obtain ⟨own, rfl, forms⟩ := below (.fields fields) (Nat.lt_succ_of_lt shorter) ⟨_, inner⟩
    exact ⟨_, rfl, .struct forms⟩
  · obtain ⟨⟨_, after, shorter⟩, opened, read⟩ := bind_eq_ok.1 read
    obtain ⟨⟨elements, _, _⟩, inner, done⟩ := bind_eq_ok.1 read
    cases done
    obtain rfl := eq_cons_of_expect opened
    obtain ⟨own, rfl, forms⟩ := below (.elements elements) (Nat.lt_succ_of_lt shorter) ⟨_, inner⟩
    exact ⟨_, rfl, .interface forms⟩
  · obtain ⟨⟨name, _, _⟩, next, done⟩ := bind_eq_ok.1 read
    obtain rfl := eq_cons_of_expectWord next
    cases done
    exact ⟨_, rfl, .qualified (by simp_all [isTypeWord])⟩
  · next qualified =>
    cases read
    refine ⟨_, rfl, .ident (by simp_all [isTypeWord]) fun dot => ?_⟩
    obtain ⟨more, rfl⟩ := List.head?_eq_some_iff.1 dot
    exact qualified _ rfl
  · cases read

theorem startsWith_signature {tree : SignatureTree}
    (read : Reads (readSignature line) toks tree rest) :
    Phrase.StartsWith line (.signature tree) toks rest := by
  obtain ⟨fewer, read⟩ := read
  rw [readSignature.eq_def] at read
  obtain ⟨⟨_, after, _⟩, opened, read⟩ := bind_eq_ok.1 read
  obtain ⟨⟨entries, more, less⟩, first, read⟩ := bind_eq_ok.1 read
  obtain ⟨⟨params, variadic⟩, list, read⟩ := bind_eq_ok.1 read
  obtain rfl := eq_cons_of_expect opened
  obtain ⟨own, whole, forms⟩ := below (.params entries) (Nat.lt_succ_self _) ⟨_, first⟩
  dsimp only at read
  split at read
  · obtain ⟨⟨others, _, _⟩, second, read⟩ := bind_eq_ok.1 read
    obtain ⟨⟨results, flag⟩, types, done⟩ := bind_eq_ok.1 read
    cases done
    obtain ⟨other, rfl, others⟩ := below (.params others)
      (by simp only [whole, List.length_cons, List.length_append]; omega) ⟨_, second⟩
    exact ⟨_, by simp [whole], .results forms list others types⟩
  · next bare =>
    split at read
    · obtain ⟨⟨result, _, _⟩, second, done⟩ := bind_eq_ok.1 read
      cases done
      obtain ⟨other, rfl, others⟩ := below (.type result) (Nat.lt_succ_of_lt less) ⟨_, second⟩
      refine ⟨_, by simp [whole], .result forms list others fun paren => ?_⟩
      obtain ⟨more, rfl⟩ := List.head?_eq_some_iff.1 paren
      exact bare _ less rfl HEq.rfl
    · next plain =>
      cases read
      exact ⟨_, by rw [whole]; rfl, .noResult forms list (by simpa using plain)⟩

theorem startsWith_params {entries : List ParamEntry}
    (read : Reads (readParams line) toks entries rest) :
    Phrase.StartsWith line (.params entries) toks rest := by
  obtain ⟨fewer, read⟩ := read
  rw [readParams.eq_def] at read
  split at read
  · cases read
    exact ⟨_, rfl, .noParams⟩
  · generalize named : takeName _ = kept at read
    obtain ⟨called, after, most⟩ := kept
    dsimp only at read
    generalize taken : takeDots after = kept at read
    obtain ⟨dots, more, least⟩ := kept
    obtain ⟨⟨tree, left, less⟩, first, read⟩ := bind_eq_ok.1 read
    have bound := Nat.le_trans least most
    obtain ⟨own, whole, forms⟩ := startsWith_type (below.mono bound) ⟨_, first⟩
    obtain ⟨rfl, plain⟩ := lead_of_taken named taken
    dsimp only at read
    split at read
    · obtain ⟨⟨others, _, _⟩, second, done⟩ := bind_eq_ok.1 read
      cases done
      have shorter := Nat.lt_trans (Nat.lt_succ_self _) (Nat.lt_of_lt_of_le less bound)
      obtain ⟨other, rfl, others⟩ := below (.params others) shorter ⟨_, second⟩
      exact ⟨_, by simp [whole], .nextParam plain forms others⟩
    · cases read
      exact ⟨_, by simp [whole], .lastParam plain forms⟩
    · cases read

theorem startsWith_field {fields : List FieldTree}
    (read : Reads (readField line) toks fields rest) :
    Phrase.StartsWith line (.field fields) toks rest := by
  obtain ⟨fewer, read⟩ := read
  rw [readField.eq_def] at read
  split at read
  · obtain ⟨⟨elem, more, _⟩, inner, read⟩ := bind_eq_ok.1 read
    dsimp only at read
    generalize taken : takeTag more = kept at read
    obtain ⟨tag, _, _⟩ := kept
    cases read
    obtain ⟨marks, rfl, isTag⟩ := isTag_of_takeTag taken
    obtain ⟨own, rfl, forms⟩ := below (.type elem) (Nat.lt_succ_self _) ⟨_, inner⟩
    exact ⟨_, by simp, .embeddedPointer forms isTag⟩
  · obtain ⟨⟨name, more, _⟩, next, read⟩ := bind_eq_ok.1 read
    dsimp only at read
    generalize taken : takeTag more = kept at read
    obtain ⟨tag, _, _⟩ := kept
    cases read
    obtain ⟨marks, rfl, isTag⟩ := isTag_of_takeTag taken
    obtain rfl := eq_cons_of_expectWord next
    exact ⟨_, rfl, .embeddedQualified isTag⟩
  · split at read
    · next ends =>
      generalize taken : takeTag _ = kept at read
      obtain ⟨tag, _, _⟩ := kept
      cases read
      obtain ⟨marks, rfl, isTag⟩ := isTag_of_takeTag taken
      exact ⟨_, rfl, .embeddedIdent isTag ends⟩
    · obtain ⟨⟨names, more, most⟩, others, read⟩ := bind_eq_ok.1 read
      obtain ⟨⟨tree, left, _⟩, inner, read⟩ := bind_eq_ok.1 read
      dsimp only at read
      generalize taken : takeTag left = kept at read
      obtain ⟨tag, _, _⟩ := kept
      cases read
      obtain ⟨marks, rfl, isTag⟩ := isTag_of_takeTag taken
      obtain ⟨own, rfl, forms⟩ := below (.type tree) (Nat.lt_succ_of_le most) ⟨_, inner⟩
      obtain rfl := eq_of_takeNames others
      exact ⟨_, by simp, .named forms isTag⟩
  · cases read

theorem startsWith_fields {fields : List FieldTree}
    (read : Reads (readFields line) toks fields rest) :
    Phrase.StartsWith line (.fields fields) toks rest := by
  obtain ⟨fewer, read⟩ := read
  rw [readFields.eq_def] at read
  split at read
  · cases read
  · cases read
    exact ⟨_, rfl, .noFields⟩
  · obtain ⟨⟨others, _, _⟩, inner, done⟩ := bind_eq_ok.1 read
    cases done
    obtain ⟨own, rfl, forms⟩ := below (.fields fields) (Nat.lt_succ_self _) ⟨_, inner⟩
    exact ⟨_, rfl, .fieldsSemicolon forms⟩
  · obtain ⟨⟨first, more, shorter⟩, field, read⟩ := bind_eq_ok.1 read
    obtain ⟨⟨others, _, _⟩, inner, done⟩ := bind_eq_ok.1 read
    cases done
    obtain ⟨other, rfl, others⟩ := below (.fields others) shorter ⟨_, inner⟩
    obtain ⟨own, rfl, forms⟩ := startsWith_field below ⟨_, field⟩
    exact ⟨_, by simp, .nextFields forms others⟩

theorem startsWith_element {element : ElementTree}
    (read : Reads (readElement line) toks element rest) :
    Phrase.StartsWith line (.element element) toks rest := by
  obtain ⟨fewer, read⟩ := read
  rw [readElement.eq_def] at read
  split at read
  · obtain ⟨⟨signature, _, _⟩, inner, done⟩ := bind_eq_ok.1 read
    cases done
    obtain ⟨own, whole, forms⟩ := below (.signature signature) (Nat.lt_succ_self _) ⟨_, inner⟩
    exact ⟨_, by rw [whole]; rfl, .method forms⟩
  · obtain ⟨⟨name, _, _⟩, next, done⟩ := bind_eq_ok.1 read
    obtain rfl := eq_cons_of_expectWord next
    cases done
    exact ⟨_, rfl, .elementQualified⟩
  · next bare unqualified =>
    cases read
    refine ⟨_, rfl, .elementIdent (fun dot => ?_) fun paren => ?_⟩
    · obtain ⟨more, rfl⟩ := List.head?_eq_some_iff.1 dot
      exact unqualified _ rfl
    · obtain ⟨more, rfl⟩ := List.head?_eq_some_iff.1 paren
      exact bare _ rfl
  · cases read

theorem startsWith_elements {elements : List ElementTree}
    (read : Reads (readElements line) toks elements rest) :
    Phrase.StartsWith line (.elements elements) toks rest := by
  obtain ⟨fewer, read⟩ := read
  rw [readElements.eq_def] at read
  split at read
  · cases read
  · cases read
    exact ⟨_, rfl, .noElements⟩
  · obtain ⟨⟨others, _, _⟩, inner, done⟩ := bind_eq_ok.1 read
    cases done
    obtain ⟨own, rfl, forms⟩ := below (.elements elements) (Nat.lt_succ_self _) ⟨_, inner⟩
    exact ⟨_, rfl, .elementsSemicolon forms⟩
  · obtain ⟨⟨first, more, shorter⟩, element, read⟩ := bind_eq_ok.1 read
    obtain ⟨⟨others, _, _⟩, inner, done⟩ := bind_eq_ok.1 read
    cases done
    obtain ⟨other, rfl, others⟩ := below (.elements others) shorter ⟨_, inner⟩
    obtain ⟨own, rfl, forms⟩ := startsWith_element below ⟨_, element⟩
    exact ⟨_, by simp, .nextElement forms others⟩

end

theorem below_all (line limit : Nat) : Below line limit := by
  induction limit with
  | zero => exact fun _ _ _ fewer => absurd fewer (Nat.not_lt_zero _)
  | succ limit ih =>
    intro phrase toks rest fewer read
    have below : Below line toks.length := ih.mono (Nat.le_of_lt_succ fewer)
    cases phrase with
    | type => exact startsWith_type below read
    | signature => exact startsWith_signature below read
    | params => exact startsWith_params below read
    | field => exact startsWith_field below read
    | fields => exact startsWith_fields below read
    | element => exact startsWith_element below read
    | elements => exact startsWith_elements below read

/-- The readers read the phrases of the grammar and nothing else. -/
theorem isRead_iff_startsWith {phrase : Phrase} :
    phrase.IsRead line toks rest ↔ phrase.StartsWith line toks rest := by
  constructor
  · exact below_all line (toks.length + 1) phrase (Nat.lt_succ_self _)
  · rintro ⟨own, rfl, forms⟩
    exact forms.isRead

/-! ## Whole texts -/

theorem isRead_nil_iff {phrase : Phrase} :
    phrase.IsRead line toks [] ↔ Forms line phrase toks [] := by
  rw [isRead_iff_startsWith]
  constructor
  · rintro ⟨own, rfl, forms⟩
    rwa [List.append_nil]
  · intro forms
    exact ⟨toks, (List.append_nil toks).symm, forms⟩

/-- A text is read as a whole where no token is left. -/
theorem whole_eq_ok_iff {α : Type} {text : List Char} {value : α}
    {read : (toks : List Token) → Except Fault (Taken α toks.length)} :
    (do
      let ⟨value, rest, _⟩ ← read (← tokens text)
      finished rest
      return value : Except Fault α) = .ok value ↔
      ∃ toks, tokens text = .ok toks ∧ Reads read toks value [] := by
  constructor
  · intro h
    obtain ⟨toks, cut, h⟩ := bind_eq_ok.1 h
    obtain ⟨⟨found, rest, fewer⟩, first, h⟩ := bind_eq_ok.1 h
    obtain ⟨_, nothing, done⟩ := bind_eq_ok.1 h
    cases done
    cases rest with
    | nil => exact ⟨toks, cut, fewer, first⟩
    | cons token rest => cases nothing
  · rintro ⟨toks, cut, fewer, first⟩
    rw [cut]
    show read toks >>= _ = _
    rw [first]
    rfl

theorem typeOf_eq_ok_iff {text : List Char} :
    typeOf line text = .ok tree ↔
      ∃ toks, tokens text = .ok toks ∧ Forms line (.type tree) toks [] := by
  simp only [← isRead_nil_iff]
  exact whole_eq_ok_iff

theorem fieldsOf_eq_ok_iff {text : List Char} {fields : List FieldTree} :
    fieldsOf line text = .ok fields ↔
      ∃ toks, tokens text = .ok toks ∧ Forms line (.field fields) toks [] := by
  simp only [← isRead_nil_iff]
  exact whole_eq_ok_iff

theorem elementOf_eq_ok_iff {text : List Char} {element : ElementTree} :
    elementOf line text = .ok element ↔
      ∃ toks, tokens text = .ok toks ∧ Forms line (.element element) toks [] := by
  simp only [← isRead_nil_iff]
  exact whole_eq_ok_iff

end GoAtlas.Source
