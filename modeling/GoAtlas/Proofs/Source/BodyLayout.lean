import GoAtlas.Proofs.Source.FuncSyntax
import GoAtlas.Proofs.Source.Lookahead

/-!
# The layouts of a body

A struct or an interface is declared on one line, with semicolons between its members, or on
several: the opening brace ends the line of the declaration, and each member and the closing
brace have lines of their own. The two layouts are read by different readers, the one from
tokens and the other line by line. They agree for all members that can be read on their own:
both declare the same type, but for the lines of the members (`body_layouts`).
-/

namespace GoAtlas

open Source Text

/-- The line of a type declaration. -/
def typeLine (name : String) (text : List Char) : List Char :=
  "type ".toList ++ (name.toList ++ ' ' :: text)

/-- The types that have a body. -/
inductive BodySort where
  | struct
  | interface

namespace BodySort

/-- The word before the body. -/
def word : BodySort → String
  | struct => "struct"
  | interface => "interface"

/-- What a member is read as: fields with a common type, or an element. -/
def Item : BodySort → Type
  | struct => List FieldTree
  | interface => ElementTree

/-- The member a text spells. -/
def read : (sort : BodySort) → (line : Nat) → (text : List Char) → Except Fault sort.Item
  | struct => fieldsOf
  | interface => elementOf

/-- The type whose body has the members. -/
def tree : (sort : BodySort) → List sort.Item → TypeTree
  | struct, items => .struct (List.flatten items)
  | interface, items => .interface items

/-- A text that can stand as a member: it is trimmed, it is on one line, and it is read on its
own up to its end. -/
def isMember (sort : BodySort) (text : List Char) : Bool :=
  trim text == text && !text.contains '\n' && (sort.read 0 text).isOk

/-- The type with its body on one line. -/
def literalText (sort : BodySort) (members : List (List Char)) : List Char :=
  sort.word.toList ++ '\x7b' :: ([';', ' '].intercalate members ++ ['\x7d'])

/-- The body on the line of the declaration. -/
def oneLine (sort : BodySort) (name : String) (members : List (List Char)) : List (List Char) :=
  [typeLine name (sort.literalText members)]

/-- The body on the lines after the declaration. -/
def manyLines (sort : BodySort) (name : String) (members : List (List Char)) :
    List (List Char) :=
  typeLine name (sort.word.toList ++ ['\x7b']) :: (members ++ [['\x7d']])

end BodySort

/-- The lines declare a type, which may depend on the number of the line above them. -/
structure Declares (layout : List (List Char)) (name : String) (type : Nat → TypeTree) : Prop where
  /-- At any place after a package clause they are read as the declaration, and reading goes on
  after them. -/
  goesOn : ∀ (progress : Progress) (number : Nat) (rest : List (List Char)),
    progress.package.isSome = true →
    progress.readLines number (layout ++ rest) =
      (progress.addDeclaration ⟨name, number + 1, .type (type number) false⟩).readLines
        (number + layout.length) rest
  /-- With a package clause above them they are a file. -/
  alone : ∀ (path : FilePath) (package : String), isWord package = true →
    parse path (textOf (packageLine package :: layout)) =
      .ok { path, packageName := package, comments := [], doc := none, imports := []
            unit := { declarations := [⟨name, 2, .type (type 1) false⟩] } }

namespace BodySort

/-! ## Bodies in the grammar -/

/-- A member as a phrase. -/
def phrase : (sort : BodySort) → sort.Item → Phrase
  | struct, item => .field item
  | interface, item => .element item

/-- The members and the closing brace as a phrase. -/
def body : (sort : BodySort) → List sort.Item → Phrase
  | struct, items => .fields (List.flatten items)
  | interface, items => .elements items

/-- The member on a line. -/
def relined (line : Nat) : {sort : BodySort} → sort.Item → sort.Item
  | struct, item => relinedFields line item
  | interface, item => ElementTree.relined line item

variable {sort : BodySort} {line : Nat} {own others rest : List Token} {item : sort.Item}
  {items : List sort.Item}

theorem relined_phrase : (sort.phrase item).relined line = sort.phrase (relined line item) := by
  cases sort <;> rfl

theorem relinedFields_flatten (line : Nat) (groups : List (List FieldTree)) :
    relinedFields line groups.flatten = (groups.map (relinedFields line)).flatten := by
  rw [relinedFields_eq_map, List.map_flatten, funext (relinedFields_eq_map line)]

theorem relined_tree :
    (sort.tree items).relined line = sort.tree (items.map (relined line)) := by
  cases sort with
  | struct => exact congrArg TypeTree.struct (relinedFields_flatten line items)
  | interface => exact congrArg TypeTree.interface (relinedElements_eq_map line items)

theorem forms_noItems : Forms line (sort.body []) [.mark .rbrace] rest := by
  cases sort with
  | struct => exact .noFields
  | interface => exact .noElements

theorem forms_semicolon (forms : Forms line (sort.body items) own rest) :
    Forms line (sort.body items) (.mark .semicolon :: own) rest := by
  cases sort with
  | struct => exact .fieldsSemicolon forms
  | interface => exact .elementsSemicolon forms

theorem forms_nextItem (forms : Forms line (sort.phrase item) own (others ++ rest))
    (more : Forms line (sort.body items) others rest) :
    Forms line (sort.body (item :: items)) (own ++ others) rest := by
  cases sort with
  | struct => exact .nextFields forms more
  | interface => exact .nextElement forms more

theorem forms_tree (forms : Forms line (sort.body items) own rest) :
    Forms line (.type (sort.tree items)) (.word sort.word :: .mark .lbrace :: own) rest := by
  cases sort with
  | struct => exact .struct forms
  | interface => exact .interface forms

theorem read_eq_ok_iff {text : List Char} : sort.read line text = .ok item ↔
    ∃ toks, tokens text = .ok toks ∧ Forms line (sort.phrase item) toks [] := by
  cases sort with
  | struct => exact fieldsOf_eq_ok_iff
  | interface => exact elementOf_eq_ok_iff

theorem goes_of_item (forms : Forms line (sort.phrase item) own rest) (more : List Token) :
    endsMember (own ++ more) = false := by
  cases sort with
  | struct => exact goes_of_field forms
  | interface => exact goes_of_element forms

theorem weight_phrase (item : sort.Item) : (sort.phrase item).weight = 0 := by
  cases sort <;> rfl

/-! ## Members -/

/-- A member with its tokens and with what it is read as. -/
structure Member (sort : BodySort) where
  text : List Char
  toks : List Token
  item : sort.Item
  trimmed : trim text = text
  single : '\n' ∉ text
  lexed : Lexed toks text
  forms : Forms 0 (sort.phrase item) toks []

theorem exists_members {texts : List (List Char)}
    (each : ∀ text ∈ texts, sort.isMember text = true) :
    ∃ members : List sort.Member, members.map (·.text) = texts := by
  induction texts with
  | nil => exact ⟨[], rfl⟩
  | cons text texts ih =>
    obtain ⟨first, others⟩ := List.forall_mem_cons.1 each
    obtain ⟨members, rfl⟩ := ih others
    simp only [isMember, Bool.and_eq_true, beq_iff_eq, Bool.not_eq_true', List.contains_eq_mem,
      decide_eq_false_iff_not] at first
    obtain ⟨⟨trimmed, single⟩, accepted⟩ := first
    cases found : sort.read 0 text with
    | error fault =>
      rw [found] at accepted
      cases accepted
    | ok item =>
      obtain ⟨toks, cut, forms⟩ := read_eq_ok_iff.1 found
      let member : sort.Member :=
        ⟨text, toks, item, trimmed, single, tokens_eq_ok_iff.1 cut, forms⟩
      exact ⟨member :: members, rfl⟩

namespace Member

section

variable (member : sort.Member)

theorem forms_at (place : Nat) {tail : List Token} (alike : Alike [] tail) :
    Forms place (sort.phrase (relined place member.item)) member.toks tail := by
  rw [← relined_phrase]
  exact member.forms.relined place alike

theorem read_at (place : Nat) : sort.read place member.text = .ok (relined place member.item) :=
  read_eq_ok_iff.2 ⟨member.toks, tokens_eq_ok_iff.2 member.lexed, member.forms_at place (.inl rfl)⟩

theorem read_zero : sort.read 0 member.text = .ok member.item :=
  read_eq_ok_iff.2 ⟨member.toks, tokens_eq_ok_iff.2 member.lexed, member.forms⟩

/-- A member that was moved is moved back: it is read from the same tokens. -/
theorem relined_relined (place : Nat) : relined 0 (relined place member.item) = member.item := by
  have same : Alike [] [] := .inl rfl
  have back := (member.forms_at place same).relined 0 same
  rw [relined_phrase] at back
  have again := read_eq_ok_iff.2 ⟨member.toks, tokens_eq_ok_iff.2 member.lexed, back⟩
  exact Except.ok.inj (again.symm.trans member.read_zero)

theorem toks_ne_nil : member.toks ≠ [] := by
  intro empty
  have goes := goes_of_item member.forms [.mark .rbrace]
  rw [empty] at goes
  cases goes

theorem braceBalance_text : braceBalance member.text = 0 := by
  rw [member.lexed.braceBalance_eq, member.forms.braces_eq, weight_phrase]

theorem text_ne_nil : member.text ≠ [] := by
  intro empty
  have cut := tokens_eq_ok_iff.2 member.lexed
  rw [empty, tokens_nil] at cut
  exact member.toks_ne_nil (Except.ok.inj cut).symm

theorem content_text : content member.text = member.text :=
  content_of_lexed member.lexed member.trimmed

/-- No member is the closing brace, since its own braces are balanced. -/
theorem text_ne_brace : member.text ≠ ['\x7d'] := by
  intro brace
  have balance := member.braceBalance_text
  rw [brace] at balance
  cases balance

end

end Member

/-! ## Members on lines of their own -/

/-- The members, each on its line. -/
def placed (number : Nat) : List sort.Member → List sort.Item
  | [] => []
  | member :: members => relined (number + 1) member.item :: placed (number + 1) members

variable (members : List sort.Member)

theorem readMembers_texts (start number : Nat) (rest : List (List Char)) :
    ∃ most, readMembers sort.read start number (members.map (·.text) ++ ['\x7d'] :: rest) =
      .ok ⟨placed number members, number + members.length + 1, rest, most⟩ := by
  induction members generalizing number with
  | nil =>
    refine ⟨Nat.le_succ _, ?_⟩
    have brace : content ['\x7d'] = ['\x7d'] := by decide
    show readMembers sort.read start number (['\x7d'] :: rest) = _
    rw [readMembers, brace]
    rfl
  | cons member members ih =>
    obtain ⟨most, later⟩ := ih (number + 1)
    refine ⟨Nat.le_succ_of_le most, ?_⟩
    have code : (member.text.isEmpty || startsWith "//" member.text) = false := by
      rw [member.lexed.startsWith_eq_false rfl, Bool.or_false, List.isEmpty_eq_false_iff]
      exact member.text_ne_nil
    have count : number + (member :: members).length + 1 = number + 1 + members.length + 1 := by
      simp only [List.length_cons]
      omega
    show readMembers sort.read start number
      (member.text :: (members.map (·.text) ++ ['\x7d'] :: rest)) = _
    rw [readMembers, member.content_text, count]
    dsimp only
    rw [if_neg member.text_ne_brace, code, if_neg Bool.false_ne_true, member.braceBalance_text,
      untilBalanced.eq_def, if_pos (Int.le_refl 0)]
    -- the braces are balanced, so the member does not go on
    show onLine (number + 1) (sort.read (number + 1) (folded member.text [])) >>= _ = _
    rw [folded, List.flatMap_nil, List.append_nil, member.read_at]
    show readMembers sort.read start (number + 1) _ >>= _ = _
    rw [later]
    rfl

/-- The opening brace ends the first line, and the members are read from the lines after it. -/
theorem readBody_texts (number : Nat) (rest : List (List Char)) :
    ∃ most, readBody (sort.word.toList ++ ['\x7b']) number
        (members.map (·.text) ++ ['\x7d'] :: rest) =
      .ok ⟨sort.tree (placed number members), number + members.length + 1, rest, most⟩ := by
  obtain ⟨most, read⟩ := readMembers_texts members number number rest
  refine ⟨most, ?_⟩
  have header : String.ofList (trim (dropTrailing '\x7b' (sort.word.toList ++ ['\x7b']))) =
      sort.word := by
    cases sort <;> decide
  rw [readBody, header]
  cases sort with
  | struct =>
    show readMembers fieldsOf number number _ >>= _ = _
    have read : readMembers fieldsOf number number _ = _ := read
    rw [read]
    rfl
  | interface =>
    show readMembers elementOf number number _ >>= _ = _
    have read : readMembers elementOf number number _ = _ := read
    rw [read]
    rfl

/-! ## Members on one line -/

/-- The tokens of the members, with semicolons between them and with the closing brace. -/
def bodyTokens : List sort.Member → List Token
  | [] => [.mark .rbrace]
  | [member] => member.toks ++ [.mark .rbrace]
  | member :: members => member.toks ++ .mark .semicolon :: bodyTokens members

theorem forms_bodyTokens (line : Nat) (rest : List Token) :
    Forms line (sort.body (members.map fun member => relined line member.item))
      (bodyTokens members) rest := by
  fun_induction bodyTokens members with
  | case1 => exact forms_noItems
  | case2 member => exact forms_nextItem (member.forms_at line (.inr ⟨rfl, rfl⟩)) forms_noItems
  | case3 member members _ ih =>
    exact forms_nextItem (member.forms_at line (.inr ⟨rfl, rfl⟩)) (forms_semicolon ih)

theorem lexed_bodyTokens :
    Lexed (bodyTokens members) ([';', ' '].intercalate (members.map (·.text)) ++ ['\x7d']) := by
  have brace : Lexed [.mark .rbrace] ['\x7d'] :=
    (Lexed.nil (List.forall_mem_nil _)).mark (by decide)
  fun_induction bodyTokens members with
  | case1 => exact brace
  | case2 member =>
    have lexed := member.lexed.append brace rfl
    simpa using lexed
  | case3 member members some ih =>
    have spaced := ih.blanks (List.forall_mem_singleton.2 (by decide : isBlank ' ' = true))
    have lexed := member.lexed.append (spaced.mark (by decide : Mark.semicolon ≠ .dot)) rfl
    cases members with
    | nil => exact absurd rfl some
    | cons next members =>
      have joined : [';', ' '].intercalate ((member :: next :: members).map (·.text)) =
          member.text ++ ';' :: ' ' :: [';', ' '].intercalate ((next :: members).map (·.text)) := by
        simp [List.intercalate]
      rw [joined, List.append_assoc]
      exact lexed

theorem isWord_word (sort : BodySort) : isWord sort.word = true := by
  cases sort <;> decide

theorem lexed_literalText :
    Lexed (.word sort.word :: .mark .lbrace :: bodyTokens members)
      (sort.literalText (members.map (·.text))) :=
  ((lexed_bodyTokens members).mark (by decide : Mark.lbrace ≠ .dot)).word sort.isWord_word rfl

theorem forms_literal (line : Nat) :
    Forms line (.type (sort.tree (members.map fun member => relined line member.item)))
      (.word sort.word :: .mark .lbrace :: bodyTokens members) [] :=
  forms_tree (forms_bodyTokens members line [])

theorem readDeclaredType_literal (number : Nat) (lines : List (List Char)) :
    readDeclaredType (sort.literalText (members.map (·.text))) number lines =
      .ok ⟨sort.tree (members.map fun member => relined number member.item), number, lines,
        Nat.le_refl _⟩ := by
  have lexed := lexed_literalText members
  have forms := forms_literal members number
  have balance : braceBalance (sort.literalText (members.map (·.text))) = 0 := by
    rw [lexed.braceBalance_eq, forms.braces_eq]
    rfl
  have read := typeOf_eq_ok_iff.2 ⟨_, tokens_eq_ok_iff.2 lexed, forms⟩
  rw [readDeclaredType, balance, if_neg (by decide), read]
  rfl

theorem readDeclaredType_texts (number : Nat) (rest : List (List Char)) :
    ∃ most, readDeclaredType (sort.word.toList ++ ['\x7b']) number
        (members.map (·.text) ++ ['\x7d'] :: rest) =
      .ok ⟨sort.tree (placed number members), number + members.length + 1, rest, most⟩ := by
  obtain ⟨most, read⟩ := readBody_texts members number rest
  have opens : braceBalance (sort.word.toList ++ ['\x7b']) > 0 := by
    cases sort <;> decide
  refine ⟨most, ?_⟩
  rw [readDeclaredType, if_pos opens, read]

end BodySort

/-! ## Declarations -/

section Declarations

variable {name : String} {text declared : List Char} {toks : List Token} {number : Nat}
  {lines below : List (List Char)}

theorem readTypeDeclaration_eq (word : isWord name = true) (trimmed : trim text = text)
    (plain : text.head? ≠ some '=') :
    readTypeDeclaration (name.toList ++ ' ' :: text) number lines = (do
      let ⟨type, last, rest, most⟩ ← readDeclaredType text number lines
      return ⟨⟨name, number, .type type false⟩, last, rest, most⟩) := by
  have split := splitFirst_append (not_mem_word word (by decide : isWordRest ' ' = false)) text
  have noAlias : dropStart? "=" text = none := by
    rw [Option.eq_none_iff_forall_ne_some]
    intro target found
    rw [dropStart?_eq_some_iff.1 found] at plain
    exact plain rfl
  rw [readTypeDeclaration, split]
  simp only [trimmed, noAlias, String.ofList_toList]

theorem readItem_type {progress : Progress} {clause : String × Nat}
    (opened : progress.package = some clause) (split : splitWord text = ("type".toList, declared)) :
    progress.readItem text number lines = (do
      let ⟨declaration, last, rest, most⟩ ← readTypeDeclaration (trim declared) number lines
      return ⟨progress.addDeclaration declaration, last, rest, most⟩) := by
  rw [Progress.readItem, split, opened]
  rfl

theorem lexed_typeLine (word : isWord name = true) (lexed : Lexed toks text) :
    Lexed (.word "type" :: .word name :: toks) (typeLine name text) := by
  have space : ∀ c ∈ [' '], isBlank c = true := List.forall_mem_singleton.2 (by decide)
  have named := (lexed.blanks space).word word rfl
  exact (named.blanks space).word (by decide : isWord "type" = true) rfl

/-- Lines that are read as a declaration at any place are one in a file of their own. -/
theorem declares_of_goesOn {layout : List (List Char)} {type : Nat → TypeTree}
    (each : ∀ line ∈ layout, IsCodeLine line)
    (goesOn : ∀ (progress : Progress) (number : Nat) (rest : List (List Char)),
      progress.package.isSome = true →
      progress.readLines number (layout ++ rest) =
        (progress.addDeclaration ⟨name, number + 1, .type (type number) false⟩).readLines
          (number + layout.length) rest) :
    Declares layout name type := by
  refine ⟨goesOn, fun path package clause => ?_⟩
  have all : ∀ line ∈ packageLine package :: layout, IsCodeLine line :=
    List.forall_mem_cons.2 ⟨isCodeLine_packageLine clause, each⟩
  have read : Progress.readLines {} 0 (packageLine package :: layout) =
      .ok (Progress.addDeclaration { package := some (package, 1) }
        ⟨name, 2, .type (type 1) false⟩) := by
    rw [readLines_package clause, ← List.append_nil layout, goesOn _ 1 [] rfl, Progress.readLines]
  rw [parse, lines_code all, commentGroups, groupsFrom_code all, read]
  rfl

/-- A type declaration, with what its type is read as from the lines below. -/
theorem declares_typeLine {type : Nat → TypeTree} (word : isWord name = true)
    (lexed : Lexed toks text) (trimmed : trim text = text) (single : '\n' ∉ text)
    (some : text ≠ []) (plain : text.head? ≠ Option.some '=')
    (each : ∀ line ∈ below, IsCodeLine line)
    (read : ∀ number rest, ∃ most, readDeclaredType text (number + 1) (below ++ rest) =
      .ok ⟨type number, number + 1 + below.length, rest, most⟩) :
    Declares (typeLine name text :: below) name type := by
  obtain ⟨c, d, first, last, visible, visibleLast⟩ := visible_of_trim trimmed some
  have spaced : ([' '] ++ text).getLast? = Option.some d := getLast?_append_some last
  have final : (typeLine name text).getLast? = Option.some d :=
    getLast?_append_some (getLast?_append_some spaced)
  have whole := lexed_typeLine word lexed
  have ends : trim (typeLine name text) = typeLine name text :=
    trim_of_visible (rfl : _ = Option.some 't') final (by decide) visibleLast
  have item : splitWord (typeLine name text) = ("type".toList, name.toList ++ ' ' :: text) :=
    splitWord_append (by decide : ' ' ∉ "type".toList) _
  have body : trim (name.toList ++ ' ' :: text) = name.toList ++ ' ' :: text := by
    obtain ⟨start, tail, chars, isStart⟩ := word_starts word
    refine trim_of_visible ?_ (getLast?_append_some spaced) (isBlank_of_isWordStart isStart)
      visibleLast
    rw [chars]
    rfl
  have isCode : IsCodeLine (typeLine name text) := by
    have keyword : '\n' ∉ "type ".toList := by decide
    have named : '\n' ∉ name.toList := not_mem_word word (by decide)
    have rest : '\n' ∉ ' ' :: text := List.not_mem_cons_of_ne_of_not_mem (by decide) single
    exact isCodeLine_of_lexed whole ends
      (List.not_mem_append keyword (List.not_mem_append named rest))
  refine declares_of_goesOn (List.forall_mem_cons.2 ⟨isCode, each⟩) ?_
  intro progress number rest opened
  obtain ⟨clause, opened⟩ := Option.isSome_iff_exists.1 opened
  obtain ⟨most, read⟩ := read number rest
  have count : number + (typeLine name text :: below).length = number + 1 + below.length := by
    simp only [List.length_cons]
    omega
  rw [List.cons_append, readLines_item (content_of_lexed whole ends) rfl,
    readItem_type opened item, body, readTypeDeclaration_eq word trimmed plain, read, count]
  rfl

end Declarations

namespace BodySort

variable {sort : BodySort} {name : String}

theorem not_mem_intercalate {c : Char} {separator : List Char} {texts : List (List Char)}
    (outside : c ∉ separator) (each : ∀ text ∈ texts, c ∉ text) :
    c ∉ separator.intercalate texts := by
  induction texts with
  | nil => exact List.not_mem_nil
  | cons text texts ih =>
    obtain ⟨first, others⟩ := List.forall_mem_cons.1 each
    cases texts with
    | nil => simpa using first
    | cons next texts =>
      have joined : separator.intercalate (text :: next :: texts) =
          text ++ (separator ++ separator.intercalate (next :: texts)) := by
        simp [List.intercalate]
      rw [joined, List.mem_append, List.mem_append, not_or, not_or]
      exact ⟨first, outside, ih others⟩

section

variable (members : List sort.Member)

theorem not_mem_literalText : '\n' ∉ sort.literalText (members.map (·.text)) := by
  have texts : ∀ text ∈ members.map (·.text), '\n' ∉ text := by
    intro text mem
    obtain ⟨member, -, rfl⟩ := List.mem_map.1 mem
    exact member.single
  have joined := not_mem_intercalate (by decide : '\n' ∉ [';', ' ']) texts
  have word : '\n' ∉ sort.word.toList := not_mem_word sort.isWord_word (by decide)
  simp only [literalText, List.mem_append, List.mem_cons, not_or]
  exact ⟨word, by decide, joined, by decide, List.not_mem_nil⟩

theorem map_placed (number : Nat) :
    (placed number members).map (relined 0) = members.map (·.item) := by
  induction members generalizing number with
  | nil => rfl
  | cons member members ih => rw [placed, List.map_cons, List.map_cons, member.relined_relined, ih]

theorem mapM_texts : (members.map (·.text)).mapM (sort.read 0) = .ok (members.map (·.item)) := by
  induction members with
  | nil => rfl
  | cons member members ih =>
    rw [List.map_cons, List.mapM_cons, member.read_zero]
    show List.mapM (sort.read 0) (members.map (·.text)) >>= _ = _
    rw [ih]
    rfl

theorem declares_oneLine (word : isWord name = true) :
    Declares (sort.oneLine name (members.map (·.text))) name
      fun number => sort.tree (members.map fun member => relined (number + 1) member.item) := by
  have last : (sort.literalText (members.map (·.text))).getLast? = some '\x7d' := by
    apply getLast?_append_some
    rw [← List.cons_append, List.getLast?_concat]
  have first : ∃ c, (sort.literalText (members.map (·.text))).head? = some c ∧
      isBlank c = false ∧ c ≠ '=' := by
    cases sort
    · exact ⟨'s', rfl, by decide, by decide⟩
    · exact ⟨'i', rfl, by decide, by decide⟩
  obtain ⟨c, first, visible, other⟩ := first
  refine declares_typeLine word (lexed_literalText members)
    (trim_of_visible first last visible (by decide)) (not_mem_literalText members) ?_ ?_
    (List.forall_mem_nil _) fun number rest => ⟨_, readDeclaredType_literal members _ rest⟩
  · intro empty
    rw [empty] at first
    cases first
  · rw [first]
    simpa using other

theorem declares_manyLines (word : isWord name = true) :
    Declares (sort.manyLines name (members.map (·.text))) name
      fun number => sort.tree (placed (number + 1) members) := by
  have brace : Lexed [.mark .rbrace] ['\x7d'] :=
    (Lexed.nil (List.forall_mem_nil _)).mark (by decide)
  have lexed : Lexed [.word sort.word, .mark .lbrace] (sort.word.toList ++ ['\x7b']) :=
    ((Lexed.nil (List.forall_mem_nil _)).mark (by decide : Mark.lbrace ≠ .dot)).word
      sort.isWord_word rfl
  refine declares_typeLine word lexed ?_ ?_ ?_ ?_ ?_ ?_
  · cases sort <;> decide
  · cases sort <;> decide
  · cases sort <;> decide
  · cases sort <;> decide
  · refine List.forall_mem_append.2 ⟨?_, List.forall_mem_singleton.2
      (isCodeLine_of_lexed brace (by decide) (by decide))⟩
    intro text mem
    obtain ⟨member, -, rfl⟩ := List.mem_map.1 mem
    exact isCodeLine_of_lexed member.lexed member.trimmed member.single
  · intro number rest
    have lines : members.map (·.text) ++ [['\x7d']] ++ rest =
        members.map (·.text) ++ ['\x7d'] :: rest := List.append_assoc _ _ _
    have count : (members.map (·.text) ++ [['\x7d']]).length = members.length + 1 := by simp
    rw [lines, count]
    exact readDeclaredType_texts members (number + 1) rest

end

end BodySort

/-- The two layouts of a body declare the same type, but for the lines of the members: the type
whose members are those that the texts spell. -/
theorem body_layouts {sort : BodySort} {name : String} {members : List (List Char)}
    (word : isWord name = true) (each : ∀ text ∈ members, sort.isMember text = true) :
    ∃ (items : List sort.Item) (one many : Nat → TypeTree),
      members.mapM (sort.read 0) = .ok items ∧
      Declares (sort.oneLine name members) name one ∧
      Declares (sort.manyLines name members) name many ∧
      ∀ number, (one number).relined 0 = sort.tree items ∧
        (many number).relined 0 = sort.tree items := by
  obtain ⟨members, rfl⟩ := BodySort.exists_members each
  refine ⟨members.map (·.item), _, _, ?_, BodySort.declares_oneLine members word,
    BodySort.declares_manyLines members word, fun number => ⟨?_, ?_⟩⟩
  · exact BodySort.mapM_texts members
  · rw [BodySort.relined_tree, List.map_map]
    congr 1
    exact List.map_congr_left fun member _ => member.relined_relined _
  · rw [BodySort.relined_tree, BodySort.map_placed]

/-- Fields with a tag that looks like code, a struct within a function and embedded fields. -/
def sampleMembers : List (List Char) :=
  ["a, b []int \x60json:\"// \x7b;\"\x60".toList, "*io.Reader".toList, "T".toList,
    "f func(x, y int, rest ...struct\x7bz int; T\x7d) (int, error)".toList]

/-- The samples are declared in both layouts. -/
theorem body_layouts_sample :
    (sampleMembers.all BodySort.struct.isMember && isWord "S") = true ∧
      ∃ (items : List (List FieldTree)) (one many : Nat → TypeTree),
        sampleMembers.mapM (fieldsOf 0) = .ok items ∧
        Declares (BodySort.struct.oneLine "S" sampleMembers) "S" one ∧
        Declares (BodySort.struct.manyLines "S" sampleMembers) "S" many ∧
        ∀ number, (one number).relined 0 = .struct items.flatten ∧
          (many number).relined 0 = .struct items.flatten := by
  have checked : (sampleMembers.all BodySort.struct.isMember && isWord "S") = true := by
    decide +kernel
  obtain ⟨all, word⟩ := Bool.and_eq_true_iff.1 checked
  exact ⟨checked, body_layouts word (List.all_eq_true.1 all)⟩

end GoAtlas
