import GoAtlas.Proofs.Source.Grammar
import GoAtlas.Proofs.Source.Scans

/-!
# What follows a phrase

What stands after a phrase matters only as far as a reader looks ahead. Tokens that form a
phrase at the end of the input form it before a semicolon and before a closing brace too, and
they form it on any line: only the lines of the members change (`Forms.relined`).

A phrase closes the braces it opens, but for the fields of a struct and the elements of an
interface, which have a closing brace of their own (`Forms.braces_eq`).
-/

namespace GoAtlas

open Source

/-! ## Lines -/

mutual

/-- The type with all its members on a line. -/
def TypeTree.relined (line : Nat) : TypeTree → TypeTree
  | .ident name => .ident name
  | .qualified package name => .qualified package name
  | .pointer elem => .pointer (elem.relined line)
  | .slice elem => .slice (elem.relined line)
  | .array length elem => .array length (elem.relined line)
  | .map key elem => .map (key.relined line) (elem.relined line)
  | .chan direction elem => .chan direction (elem.relined line)
  | .func signature => .func (signature.relined line)
  | .struct fields => .struct (relinedFields line fields)
  | .interface elements => .interface (relinedElements line elements)

def SignatureTree.relined (line : Nat) : SignatureTree → SignatureTree
  | ⟨params, results, variadic⟩ =>
    ⟨relinedTypes line params, relinedTypes line results, variadic⟩

def relinedTypes (line : Nat) : List TypeTree → List TypeTree
  | [] => []
  | first :: rest => first.relined line :: relinedTypes line rest

def FieldTree.relined (line : Nat) : FieldTree → FieldTree
  | ⟨name, embedded, tag, type, _⟩ => ⟨name, embedded, tag, type.relined line, line⟩

def relinedFields (line : Nat) : List FieldTree → List FieldTree
  | [] => []
  | first :: rest => first.relined line :: relinedFields line rest

def ElementTree.relined (line : Nat) : ElementTree → ElementTree
  | .method name signature _ => .method name (signature.relined line) line
  | .embedded type => .embedded (type.relined line)

def relinedElements (line : Nat) : List ElementTree → List ElementTree
  | [] => []
  | first :: rest => first.relined line :: relinedElements line rest

end

theorem relinedTypes_eq_map (line : Nat) (types : List TypeTree) :
    relinedTypes line types = types.map (·.relined line) := by
  induction types with
  | nil => rfl
  | cons first rest ih => rw [relinedTypes, ih, List.map_cons]

theorem relinedFields_eq_map (line : Nat) (fields : List FieldTree) :
    relinedFields line fields = fields.map (·.relined line) := by
  induction fields with
  | nil => rfl
  | cons first rest ih => rw [relinedFields, ih, List.map_cons]

theorem relinedElements_eq_map (line : Nat) (elements : List ElementTree) :
    relinedElements line elements = elements.map (·.relined line) := by
  induction elements with
  | nil => rfl
  | cons first rest ih => rw [relinedElements, ih, List.map_cons]

theorem baseName_relined (line : Nat) (tree : TypeTree) :
    baseName (tree.relined line) = baseName tree := by
  fun_induction baseName tree with
  | case1 name => rfl
  | case2 package name => rfl
  | case3 elem ih => exact ih
  | case4 tree ident qualified pointer =>
    cases tree with
    | ident name => exact absurd rfl (ident name)
    | qualified package name => exact absurd rfl (qualified package name)
    | pointer elem => exact absurd rfl (pointer elem)
    | _ => rfl

namespace Source

variable {marks : List Token}

def ParamEntry.relined (line : Nat) (entry : ParamEntry) : ParamEntry :=
  { entry with type := entry.type.relined line }

def Phrase.relined (line : Nat) : Phrase → Phrase
  | .type tree => .type (tree.relined line)
  | .signature tree => .signature (tree.relined line)
  | .params entries => .params (entries.map (·.relined line))
  | .field trees => .field (relinedFields line trees)
  | .fields trees => .fields (relinedFields line trees)
  | .element tree => .element (tree.relined line)
  | .elements trees => .elements (relinedElements line trees)

theorem fullType_relined (line : Nat) (entry : ParamEntry) :
    (entry.relined line).fullType = entry.fullType.relined line := by
  unfold ParamEntry.fullType ParamEntry.relined
  split <;> rfl

variable {entries : List ParamEntry} {types : List TypeTree}

theorem paramTypes_relined {line pending : Nat} {someNamed start variadic : Bool}
    (list : paramTypes someNamed pending start entries = .ok (types, variadic)) :
    paramTypes someNamed pending start (entries.map (·.relined line)) =
      .ok (relinedTypes line types, variadic) := by
  induction entries generalizing pending start types with
  | nil =>
    rw [List.map_nil]
    rw [paramTypes] at list ⊢
    split at list
    · next none =>
      cases list
      rw [if_pos none]
      rfl
    · cases list
  | cons entry entries ih =>
    rw [List.map_cons]
    rw [paramTypes] at list ⊢
    split at list
    · next waits =>
      have waits' : (someNamed && (entry.relined line).name.isNone) = true := waits
      rw [if_pos waits', ih list]
    · next named =>
      have named' : ¬(someNamed && (entry.relined line).name.isNone) = true := named
      obtain ⟨⟨others, flag⟩, inner, done⟩ := Constraint.bind_eq_ok.1 list
      cases done
      rw [if_neg named']
      show paramTypes someNamed 0 entry.dots _ >>= _ = _
      rw [ih inner]
      simp only [relinedTypes_eq_map, List.map_append, List.map_replicate, fullType_relined]
      rfl

theorem paramList_relined {line : Nat} {variadic : Bool}
    (list : paramList entries = .ok (types, variadic)) :
    paramList (entries.map (·.relined line)) = .ok (relinedTypes line types, variadic) := by
  have same : (entries.map (·.relined line)).any (fun entry => entry.name.isSome) =
      entries.any fun entry => entry.name.isSome := List.any_map
  rw [paramList, same]
  exact paramTypes_relined list

/-! ## Lookahead -/

/-- A reader that looks ahead to the one finds what it finds in the other. At the end of the
input it finds the same as where a member ends. -/
def Alike (rest tail : List Token) : Prop :=
  tail.head? = rest.head? ∨ rest = [] ∧ endsMember tail = true

variable {line : Nat} {own rest tail : List Token} {phrase : Phrase}

theorem Alike.append (alike : Alike rest tail) (own : List Token) :
    Alike (own ++ rest) (own ++ tail) := by
  cases own with
  | nil => exact alike
  | cons token own => exact .inl rfl

theorem Alike.head?_ne {token : Token} (alike : Alike rest tail)
    (plain : rest.head? ≠ some token) (goes : endsMember [token] = false) :
    tail.head? ≠ some token := by
  obtain same | ⟨rfl, ends⟩ := alike
  · rwa [same]
  · rintro first
    obtain ⟨more, rfl⟩ | ⟨more, rfl⟩ := endsMember_cases ends <;>
    · cases first
      cases goes

theorem Alike.startsType (alike : Alike rest tail) (plain : startsType rest = false) :
    startsType tail = false := by
  obtain same | ⟨rfl, ends⟩ := alike
  · rwa [congr_of_head? startsType_cons same]
  · obtain ⟨more, rfl⟩ | ⟨more, rfl⟩ := endsMember_cases ends <;> rfl

theorem endsField_cons (token : Token) (more : List Token) :
    endsField (token :: more) = endsField [token] := by
  cases token with
  | mark sign => cases sign <;> rfl
  | _ => rfl

theorem Alike.endsField (alike : Alike rest tail) (closed : endsField rest = true) :
    endsField tail = true := by
  obtain same | ⟨rfl, ends⟩ := alike
  · rwa [congr_of_head? endsField_cons same]
  · obtain ⟨more, rfl⟩ | ⟨more, rfl⟩ := endsMember_cases ends <;> rfl

theorem IsTag.alike {tag : String} (isTag : IsTag marks tag rest) (alike : Alike rest tail) :
    IsTag marks tag tail := by
  cases isTag with
  | written => exact .written
  | missing plain => exact .missing fun tag => alike.head?_ne (plain tag) rfl

/-- A phrase is formed on any line and before any tokens that look alike. -/
theorem Forms.relined (forms : Forms line phrase own rest) (place : Nat)
    (alike : Alike rest tail) : Forms place (phrase.relined place) own tail := by
  induction forms generalizing tail with
  | pointer _ ih => exact .pointer (ih alike)
  | slice _ ih => exact .slice (ih alike)
  | array _ ih => exact .array (ih alike)
  | parens _ ih => exact .parens (ih (.inl rfl))
  | map _ _ first second => exact .map (first (.inl rfl)) (second alike)
  | receive _ ih => exact .receive (ih alike)
  | send _ ih => exact .send (ih alike)
  | chan _ plain ih => exact .chan (ih alike) plain
  | func _ ih => exact .func (ih alike)
  | struct _ ih => exact .struct (ih alike)
  | interface _ ih => exact .interface (ih alike)
  | qualified plain => exact .qualified plain
  | ident plain ends => exact .ident plain (alike.head?_ne ends rfl)
  | noResult _ list plain ih =>
    exact .noResult (ih alike) (paramList_relined list) (alike.startsType plain)
  | result _ list _ bare first second =>
    exact .result (first (alike.append _)) (paramList_relined list) (second alike) bare
  | results _ list _ types first second =>
    exact .results (first (.inl rfl)) (paramList_relined list) (second alike)
      (paramList_relined types)
  | noParams => exact .noParams
  | lastParam plain _ ih => exact .lastParam plain (ih (.inl rfl))
  | nextParam plain _ _ first others => exact .nextParam plain (first (.inl rfl)) (others alike)
  | embeddedPointer _ isTag ih =>
    have forms := Forms.embeddedPointer (ih (alike.append _)) (isTag.alike alike)
    rwa [baseName_relined] at forms
  | embeddedQualified isTag => exact .embeddedQualified (isTag.alike alike)
  | embeddedIdent isTag ends =>
    exact .embeddedIdent (isTag.alike alike) ((alike.append _).endsField ends)
  | named _ isTag ih =>
    rw [Phrase.relined, relinedFields_eq_map, List.map_map]
    exact .named (ih (alike.append _)) (isTag.alike alike)
  | noFields => exact .noFields
  | fieldsSemicolon _ ih => exact .fieldsSemicolon (ih alike)
  | nextFields _ _ first others =>
    rw [Phrase.relined, relinedFields_eq_map, List.map_append, ← relinedFields_eq_map,
      ← relinedFields_eq_map]
    exact .nextFields (first (alike.append _)) (others alike)
  | method _ ih => exact .method (ih alike)
  | elementQualified => exact .elementQualified
  | elementIdent unqualified bare =>
    exact .elementIdent (alike.head?_ne unqualified rfl) (alike.head?_ne bare rfl)
  | noElements => exact .noElements
  | elementsSemicolon _ ih => exact .elementsSemicolon (ih alike)
  | nextElement _ _ first others => exact .nextElement (first (alike.append _)) (others alike)

/-! ## Braces -/

/-- How much a phrase opens: the members of a type literal close its brace. -/
def Phrase.weight : Phrase → Int
  | .fields _ | .elements _ => -1
  | _ => 0

theorem braces_entryLead (called : Option String) (dots : Bool) :
    braces (entryLead called dots) = 0 := by
  cases called <;> cases dots <;> rfl

theorem braces_nameTokens (names : List String) : braces (nameTokens names) = 0 := by
  induction names with
  | nil => rfl
  | cons name names ih => simpa [nameTokens, Token.weight] using ih

theorem IsTag.braces_eq {tag : String} (isTag : IsTag marks tag rest) : braces marks = 0 := by
  cases isTag <;> rfl

/-- A phrase closes the braces it opens. -/
theorem Forms.braces_eq (forms : Forms line phrase own rest) : braces own = phrase.weight := by
  induction forms with
  | embeddedPointer _ isTag ih => simp_all [Phrase.weight, Token.weight, isTag.braces_eq]
  | embeddedQualified isTag => simp [Phrase.weight, Token.weight, isTag.braces_eq]
  | embeddedIdent isTag _ => simp [Phrase.weight, Token.weight, isTag.braces_eq]
  | named _ isTag ih =>
    simp_all [Phrase.weight, Token.weight, isTag.braces_eq, braces_nameTokens]
  | lastParam _ _ ih => simp_all [Phrase.weight, Token.weight, braces_entryLead]
  | nextParam _ _ _ first others => simp_all [Phrase.weight, Token.weight, braces_entryLead]
  | _ => simp_all [Phrase.weight, Token.weight]

end Source

end GoAtlas
