import GoAtlas.Proofs.Source.Scans
import GoAtlas.Proofs.Source.TypeSyntax
import GoAtlas.Proofs.Text.Lines
import GoAtlas.Source.FileReader

/-!
# The syntax of functions

`FuncTree.tokens` writes the header of a function: a receiver in parentheses, if there is one,
the name and the signature. A file that has a package clause and a function on one line, with a
body in braces, is read as that one function (`parse_closed`), whatever the blanks in its header
and whatever its body holds.

The header is cut from the body before there are tokens. So this asks for more than tokens can
tell. The brackets within each tag have to nest, and the header must not end with a word such
as `mystruct`: the brace after it is taken for that of a type literal, and the file cannot be
read at all. And a receiver without a name must not start with the word of a type, which would
be taken for its name.
-/

namespace GoAtlas

open Source Text

/-! ## Functions as tokens -/

/-- A receiver as it is written. The name may be left out. -/
structure ReceiverTree where
  name : Option String
  type : TypeTree

/-- The header of a function as it is written. -/
structure FuncTree where
  receiver : Option ReceiverTree
  name : String
  signature : SignatureTree

/-- The tokens of a receiver. -/
def ReceiverTree.tokens (receiver : ReceiverTree) : List Token :=
  .mark .lparen ::
    (receiver.name.toList.map .word ++ receiver.type.tokens ++ [.mark .rparen])

/-- The tokens of the header of a function. -/
def FuncTree.tokens (func : FuncTree) : List Token :=
  func.receiver.toList.flatMap ReceiverTree.tokens ++ .word func.name :: func.signature.tokens

/-- The declaration of the function on a line. -/
def FuncTree.declaration (func : FuncTree) (line : Nat) : NamedTree :=
  ⟨func.name, line, .func (func.receiver.map (·.type)) func.signature⟩

/-- The type starts with a word that is not a name. -/
def TypeTree.startsWithTypeWord : TypeTree → Bool
  | .map _ _ | .chan .both _ | .chan .send _ | .func _ | .struct _ | .interface _ => true
  | _ => false

/-- The name is a word, the type can be written, and it is not taken for a name. -/
def ReceiverTree.isPlain (line : Nat) (receiver : ReceiverTree) : Bool :=
  receiver.name.all isWord && receiver.type.isPlain line &&
    (receiver.name.isSome || !receiver.type.startsWithTypeWord)

/-- The names are words, and the types can be written. -/
def FuncTree.isPlain (line : Nat) (func : FuncTree) : Bool :=
  func.receiver.all (·.isPlain line) && isWord func.name && func.signature.isPlain line

namespace Source

variable {line : Nat} {toks rest : List Token} {text : List Char} {within : Bool}
variable {c : Char} {progress : Progress}

/-! ## The brackets of a header -/

/-- The brackets within a string literal nest. -/
def Token.isQuiet : Token → Bool
  | .literal text => nests text.toList
  | _ => true

/-- The brackets within each string literal nest. -/
def areQuiet (toks : List Token) : Bool :=
  toks.all Token.isQuiet

theorem areQuiet_cons {token : Token} :
    areQuiet (token :: toks) = true ↔ token.isQuiet = true ∧ areQuiet toks = true := by
  simp [areQuiet]

theorem areQuiet_append :
    areQuiet (toks ++ rest) = true ↔ areQuiet toks = true ∧ areQuiet rest = true := by
  simp [areQuiet]

theorem Nested.cons {token : Token} (bare : token.isBare = true) (others : Nested within toks) :
    Nested within (token :: toks) :=
  (Nested.bare bare).append others

theorem Nested.parens_append (inner : Nested within toks) (others : Nested within rest) :
    Nested within (.mark .lparen :: (toks ++ .mark .rparen :: rest)) := by
  have whole := inner.parens.append others
  rwa [List.cons_append, List.append_assoc] at whole

theorem Nested.square_append (inner : Nested within toks) (others : Nested within rest) :
    Nested within (.mark .lbracket :: (toks ++ .mark .rbracket :: rest)) := by
  have whole := inner.square.append others
  rwa [List.cons_append, List.append_assoc] at whole

theorem nested_tagTokens {tag : String} (quiet : areQuiet (tagTokens tag) = true) :
    Nested true (tagTokens tag) := by
  by_cases empty : tag.isEmpty = true
  · rw [tagTokens, if_pos empty]
    exact .nil
  · rw [tagTokens, if_neg empty] at quiet ⊢
    exact .tag (areQuiet_cons.1 quiet).1

mutual

theorem nested_tokens : ∀ (tree : TypeTree) {within : Bool}, areQuiet tree.tokens = true →
    Nested within tree.tokens
  | .ident name, _ => fun _ => .bare rfl
  | .qualified package name, _ => fun _ => .cons rfl (.cons rfl (.bare rfl))
  | .pointer elem, _ => fun quiet => .cons rfl (nested_tokens elem quiet)
  | .slice elem, _ => fun quiet => Nested.nil.square_append (nested_tokens elem quiet)
  | .array length elem, _ => fun quiet =>
    (Nested.bare rfl).square_append (nested_tokens elem quiet)
  | .map key elem, _ => by
    intro quiet
    simp only [TypeTree.tokens, areQuiet_cons, areQuiet_append] at quiet
    obtain ⟨-, -, first, -, second⟩ := quiet
    exact .cons rfl ((nested_tokens key first).square_append (nested_tokens elem second))
  | .chan .both elem, _ => by
    intro quiet
    by_cases receiver : elem.isReceiver = true
    · rw [TypeTree.tokens, if_pos receiver] at quiet ⊢
      simp only [areQuiet_cons, areQuiet_append] at quiet
      exact .cons rfl (nested_tokens elem quiet.2.2.1).parens
    · rw [TypeTree.tokens, if_neg receiver] at quiet ⊢
      exact .cons rfl (nested_tokens elem quiet)
  | .chan .send elem, _ => fun quiet => .cons rfl (.cons rfl (nested_tokens elem quiet))
  | .chan .receive elem, _ => fun quiet => .cons rfl (.cons rfl (nested_tokens elem quiet))
  | .func signature, _ => fun quiet => .cons rfl (nested_signature signature quiet)
  | .struct fields, _ => by
    intro quiet
    simp only [TypeTree.tokens, areQuiet_cons, areQuiet_append] at quiet
    exact .braces rfl (nested_fieldTokens fields quiet.2.2.1)
  | .interface elements, _ => by
    intro quiet
    simp only [TypeTree.tokens, areQuiet_cons, areQuiet_append] at quiet
    exact .braces rfl (nested_elementTokens elements quiet.2.2.1)

theorem nested_signature : ∀ (signature : SignatureTree) {within : Bool},
    areQuiet signature.tokens = true → Nested within signature.tokens
  | ⟨params, [], variadic⟩, _ => by
    intro quiet
    simp only [SignatureTree.tokens, areQuiet_cons, areQuiet_append] at quiet
    exact (nested_paramTokens variadic params quiet.2.1).parens_append .nil
  | ⟨params, [result], variadic⟩, _ => by
    intro quiet
    simp only [SignatureTree.tokens, areQuiet_cons, areQuiet_append] at quiet
    obtain ⟨-, first, -, second⟩ := quiet
    exact (nested_paramTokens variadic params first).parens_append (nested_tokens result second)
  | ⟨params, result :: next :: others, variadic⟩, _ => by
    intro quiet
    simp only [SignatureTree.tokens, resultTokens_cons, areQuiet_cons, areQuiet_append] at quiet ⊢
    obtain ⟨-, first, -, -, second, -⟩ := quiet
    exact (nested_paramTokens variadic params first).parens_append
      (nested_paramTokens false (result :: next :: others) second).parens

theorem nested_paramTokens (variadic : Bool) : ∀ (params : List TypeTree) {within : Bool},
    areQuiet (paramTokens variadic params) = true → Nested within (paramTokens variadic params)
  | [], _ => fun _ => .nil
  | [.slice elem], _ => by
    intro quiet
    cases variadic with
    | true => exact .cons rfl (nested_tokens elem quiet)
    | false => exact Nested.nil.square_append (nested_tokens elem quiet)
  | [.ident _], _ | [.qualified _ _], _ | [.pointer _], _ | [.array _ _], _ | [.map _ _], _
  | [.chan _ _], _ | [.func _], _ | [.struct _], _ | [.interface _], _ => nested_tokens _
  | first :: second :: others, _ => by
    intro quiet
    rw [paramTokens_cons, areQuiet_append, areQuiet_cons] at quiet
    rw [paramTokens_cons]
    exact (nested_tokens first quiet.1).append
      (.cons rfl (nested_paramTokens variadic (second :: others) quiet.2.2))

theorem nested_fieldTree : ∀ (field : FieldTree), areQuiet field.tokens = true →
    Nested true field.tokens
  | ⟨name, embedded, tag, type, place⟩ => by
    intro quiet
    simp only [FieldTree.tokens, areQuiet_append] at quiet
    obtain ⟨-, first, second⟩ := quiet
    have after := (nested_tokens type first).append (nested_tagTokens second)
    cases embedded with
    | true => exact after
    | false => exact .cons rfl after

theorem nested_fieldTokens : ∀ (fields : List FieldTree), areQuiet (fieldTokens fields) = true →
    Nested true (fieldTokens fields)
  | [] => fun _ => .nil
  | [single] => fun quiet => nested_fieldTree single quiet
  | first :: second :: others => by
    intro quiet
    rw [fieldTokens_cons, areQuiet_append, areQuiet_cons] at quiet
    rw [fieldTokens_cons]
    exact (nested_fieldTree first quiet.1).append
      (.cons rfl (nested_fieldTokens (second :: others) quiet.2.2))

theorem nested_elementTree : ∀ (element : ElementTree), areQuiet element.tokens = true →
    Nested true element.tokens
  | .method _ signature _ => fun quiet => .cons rfl (nested_signature signature quiet)
  | .embedded type => fun quiet => nested_tokens type quiet

theorem nested_elementTokens : ∀ (elements : List ElementTree),
    areQuiet (elementTokens elements) = true → Nested true (elementTokens elements)
  | [] => fun _ => .nil
  | [single] => fun quiet => nested_elementTree single quiet
  | first :: second :: others => by
    intro quiet
    rw [elementTokens_cons, areQuiet_append, areQuiet_cons] at quiet
    rw [elementTokens_cons]
    exact (nested_elementTree first quiet.1).append
      (.cons rfl (nested_elementTokens (second :: others) quiet.2.2))

end

variable {receiver : ReceiverTree}

theorem nested_receiver (quiet : areQuiet receiver.tokens = true) :
    Nested within receiver.tokens := by
  obtain ⟨name, type⟩ := receiver
  simp only [ReceiverTree.tokens, areQuiet_cons, areQuiet_append] at quiet
  obtain ⟨-, ⟨-, quiet⟩, -⟩ := quiet
  have inner : Nested within type.tokens := nested_tokens type quiet
  cases name with
  | none => exact inner.parens
  | some name => exact (Nested.cons rfl inner).parens

/-- The brackets of a header nest when those within its tags do. -/
theorem nested_func {func : FuncTree} (quiet : areQuiet func.tokens = true) :
    Nested within func.tokens := by
  obtain ⟨receiver, name, signature⟩ := func
  rw [FuncTree.tokens, areQuiet_append, areQuiet_cons] at quiet
  obtain ⟨first, -, second⟩ := quiet
  have after : Nested within (.word name :: signature.tokens) :=
    .cons rfl (nested_signature signature second)
  cases receiver with
  | none => exact after
  | some receiver =>
    simp only [FuncTree.tokens, Option.toList_some, List.flatMap_singleton] at first ⊢
    exact (nested_receiver first).append after

/-! ## Reading a header -/

theorem afterReceiverName_name (name : String) (type : TypeTree) (rest : List Token) :
    readReceiver.afterReceiverName (.word name :: (type.tokens ++ rest)) = type.tokens ++ rest := by
  obtain ⟨token, more, tokens, opens, -⟩ := tokens_opens type
  rw [tokens, List.cons_append]
  obtain ⟨_, rfl⟩ | rfl | rfl | rfl := opensType_cases opens <;> rfl

theorem afterReceiverName_type {type : TypeTree} (plain : type.startsWithTypeWord = false)
    (rest : List Token) : readReceiver.afterReceiverName (type.tokens ++ .mark .rparen :: rest) =
      type.tokens ++ .mark .rparen :: rest := by
  cases type with
  | chan direction elem =>
    cases direction with
    | receive => rfl
    | _ => cases plain
  | map _ _ | func _ | struct _ | interface _ => cases plain
  | _ => rfl

theorem readReceiver_parens {type : TypeTree} {more : List Token}
    (start : readReceiver.afterReceiverName toks = more)
    (h : Reads (readType line) more type (.mark .rparen :: rest)) :
    readReceiver line (.mark .lparen :: toks) = .ok (some type, rest) := by
  subst start
  obtain ⟨fewer, read⟩ := h
  rw [readReceiver, read]
  rfl

theorem readReceiver_tokens (plain : receiver.isPlain line = true) (rest : List Token) :
    readReceiver line (receiver.tokens ++ rest) = .ok (some receiver.type, rest) := by
  obtain ⟨name, type⟩ := receiver
  simp only [ReceiverTree.isPlain, Bool.and_eq_true] at plain
  obtain ⟨⟨-, plainType⟩, named⟩ := plain
  have read := reads_tokens type plainType (rfl : endsType (.mark .rparen :: rest) = true)
  simp only [ReceiverTree.tokens, List.cons_append, List.append_assoc, List.nil_append]
  refine readReceiver_parens ?_ read
  cases name with
  | none => exact afterReceiverName_type (by simpa using named) rest
  | some name => exact afterReceiverName_name name type (.mark .rparen :: rest)

variable {func : FuncTree}

theorem readReceiver_func (plain : func.isPlain line = true) (rest : List Token) :
    readReceiver line (func.tokens ++ rest) =
      .ok (func.receiver.map (·.type), .word func.name :: (func.signature.tokens ++ rest)) := by
  obtain ⟨receiver, name, signature⟩ := func
  simp only [FuncTree.isPlain, Bool.and_eq_true] at plain
  cases receiver with
  | none => rfl
  | some receiver =>
    simp only [FuncTree.tokens, Option.toList_some, List.flatMap_singleton, List.append_assoc]
    exact readReceiver_tokens plain.1.1 _

/-- A header is read up to a place where its signature ends, and nothing may be left. -/
theorem funcOf_tokens (plain : func.isPlain line = true)
    (ends : endsType rest = true) (read : tokens text = .ok (func.tokens ++ rest)) :
    funcOf line text = (do
      finished rest
      return (func.receiver.map (·.type), func.name, func.signature)) := by
  have signature : func.signature.isPlain line = true := by
    simp only [FuncTree.isPlain, Bool.and_eq_true] at plain
    exact plain.2
  obtain ⟨fewer, taken⟩ := reads_signature func.signature signature ends
  rw [funcOf, read]
  show (readReceiver line (func.tokens ++ rest) >>= _) = _
  rw [readReceiver_func plain]
  show (readSignature line (func.signature.tokens ++ rest) >>= _) = _
  rw [taken]
  rfl

/-! ## The header and the body -/

theorem splitBody_func (quiet : areQuiet func.tokens = true) (written : Written func.tokens text)
    (body : List Char) :
    splitBody (text ++ body) = splitBodyFrom text.reverse 0 0 body := by
  have passes := passes_nested (nested_func quiet : Nested false func.tokens) written
  have through := passes [] body 0 0 (Int.le_refl _) (fun inside => by cases inside)
  rwa [List.append_nil] at through

/-- The body starts where the header ends, unless the last word of the header opens a type
literal. -/
theorem splitBody_closed (quiet : areQuiet func.tokens = true)
    (closed : endsOpening func.tokens = false) (written : Written func.tokens text)
    (body : List Char) :
    splitBody (text ++ '\x7b' :: body) = (trimEnd text, '\x7b' :: body) := by
  have plain : opensLiteral text.reverse = false := (opensLiteral_written written).trans closed
  rw [splitBody_func quiet written, splitBodyFrom, if_neg (by decide), if_neg (by decide),
    if_pos rfl, if_neg (by decide), if_pos ⟨rfl, by simp [plain]⟩, List.reverse_reverse]

theorem splitBodyFrom_parts (before : List Char) (depth literal : Int) (text : List Char) :
    ∃ start final, splitBodyFrom before depth literal text =
      (trimEnd (before.reverse ++ start), final) := by
  fun_induction splitBodyFrom before depth literal text with
  | case1 before depth literal => exact ⟨[], [], by simp⟩
  | case5 before depth literal rest _ _ _ _ => exact ⟨[], '\x7b' :: rest, by simp⟩
  | _ =>
    obtain ⟨start, final, parts⟩ := ‹∃ start final, _›
    rw [List.reverse_cons, List.append_assoc] at parts
    exact ⟨_, final, parts⟩

/-- A body after such a word is taken for that of a type literal, so the header goes on with
its brace. -/
theorem splitBody_opening (quiet : areQuiet func.tokens = true)
    (opening : endsOpening func.tokens = true) (written : Written func.tokens text)
    (body : List Char) :
    ∃ start final, splitBody (text ++ '\x7b' :: body) = (text ++ '\x7b' :: start, final) := by
  have opens : opensLiteral text.reverse = true := (opensLiteral_written written).trans opening
  rw [splitBody_func quiet written, splitBodyFrom_brace (Int.le_refl _) opens]
  obtain ⟨start, final, parts⟩ := splitBodyFrom_parts ('\x7b' :: text.reverse) 0 (0 + 1) body
  refine ⟨trimEnd start, final, ?_⟩
  rw [parts, List.reverse_cons, List.reverse_reverse, List.append_assoc, List.singleton_append,
    trimEnd_append_visible _ _ (by decide)]

/-! ## Reading a declaration -/

variable {body : List Char} {number : Nat} {lines : List (List Char)}

theorem readFuncDeclaration_closed (plain : func.isPlain number = true)
    (quiet : areQuiet func.tokens = true) (closed : endsOpening func.tokens = false)
    (written : Written func.tokens text) (balanced : braceBalance ('\x7b' :: body) = 0) :
    readFuncDeclaration (text ++ '\x7b' :: body) number lines =
      .ok ⟨func.declaration number, number, lines, Nat.le_refl _⟩ := by
  have read : tokens (trimEnd text) = .ok (func.tokens ++ []) := by
    rw [List.append_nil]
    exact tokens_of_written written.trimmedEnd
  have header := funcOf_tokens plain rfl read
  rw [readFuncDeclaration, splitBody_closed quiet closed written]
  show (untilBalanced _ (braceBalance ('\x7b' :: body)) number lines >>= _) = _
  rw [balanced, untilBalanced.eq_def, if_pos (Int.le_refl _)]
  show (onLine number (funcOf number (trimEnd text)) >>= _) = _
  rw [header]
  rfl

theorem funcOf_brace (plain : func.isPlain line = true) (written : Written func.tokens text)
    (start : List Char) : ∃ fault, funcOf line (text ++ '\x7b' :: start) = .error fault := by
  have lexed := tokens_eq_ok_iff.1 (tokens_of_written written)
  have read := tokens_append lexed (rfl : ('\x7b' :: start).head?.all separates = true)
  have brace : tokens ('\x7b' :: start) = (.mark .lbrace :: ·) <$> tokens start := by
    rw [tokens_cons]
    rfl
  rw [brace] at read
  cases others : tokens start with
  | error fault =>
    refine ⟨fault, ?_⟩
    rw [funcOf, read, others]
    rfl
  | ok others' =>
    rw [others] at read
    refine ⟨.trailing (.mark .lbrace), ?_⟩
    rw [funcOf_tokens plain rfl read]
    rfl

theorem readFuncDeclaration_opening (plain : func.isPlain number = true)
    (quiet : areQuiet func.tokens = true) (opening : endsOpening func.tokens = true)
    (written : Written func.tokens text) :
    ∃ located, readFuncDeclaration (text ++ '\x7b' :: body) number lines = .error located := by
  obtain ⟨start, final, parts⟩ := splitBody_opening quiet opening written body
  obtain ⟨fault, header⟩ := funcOf_brace plain written start
  rw [readFuncDeclaration, parts]
  show ∃ located, (untilBalanced _ (braceBalance final) number lines >>= _) = .error located
  cases untilBalanced (.unterminatedFunc number) (braceBalance final) number lines with
  | error located => exact ⟨located, rfl⟩
  | ok ahead =>
    refine ⟨⟨ahead.number, fault⟩, ?_⟩
    show (onLine ahead.number (funcOf number (text ++ '\x7b' :: start)) >>= _) = _
    rw [header]
    rfl

/-! ## Reading a file -/

/-- A body on one line: it stands in braces, its braces outside literals balance, and it has no
comment. -/
structure IsBody (body : List Char) : Prop where
  opens : body.head? = some '\x7b'
  closes : body.getLast? = some '\x7d'
  balanced : braceBalance body = 0
  uncommented : beforeComment .outside body = body
  oneLine : '\n' ∉ body

/-- The line of a package clause. -/
def packageLine (package : String) : List Char :=
  "package ".toList ++ package.toList

/-- The line of a function. -/
def funcLine (header body : List Char) : List Char :=
  "func ".toList ++ (header ++ body)

/-- A file of two lines. -/
def fileOf (first second : List Char) : String :=
  String.ofList (first ++ '\n' :: (second ++ ['\n']))

theorem fileOf_eq (first second : List Char) : fileOf first second = textOf [first, second] := by
  simp [fileOf, textOf]

theorem trimEnd_of_visible (last : text.getLast? = some c) (visible : isBlank c = false) :
    trimEnd text = text := by
  obtain ⟨start, rfl⟩ := List.getLast?_eq_some_iff.1 last
  exact trimEnd_append_visible start [] visible

theorem trimStart_of_visible (first : text.head? = some c) (visible : isBlank c = false) :
    trimStart text = text := by
  obtain ⟨rest, rfl⟩ := List.head?_eq_some_iff.1 first
  simp [trimStart, visible]

theorem trim_of_visible {d : Char} (first : text.head? = some c) (last : text.getLast? = some d)
    (visible : isBlank c = false) (visibleLast : isBlank d = false) : trim text = text := by
  rw [trim, trimStart_of_visible first visible, trimEnd_of_visible last visibleLast]

/-- A line without a comment and without blanks at its ends says what it holds. -/
theorem content_of_trim (uncommented : beforeComment .outside text = text)
    (trimmed : trim text = text) : content text = text := by
  have final := trimEnd_trim text
  rw [trimmed] at final
  rw [content, stripComment, uncommented, final, trimmed]

theorem content_of_lexed (lexed : Lexed toks text) (trimmed : trim text = text) :
    content text = text :=
  content_of_trim lexed.beforeComment_eq trimmed

/-- A line that is read as itself and that is no comment. -/
def IsCodeLine (line : List Char) : Prop :=
  '\n' ∉ line ∧ line.getLast? ≠ some '\r' ∧ isCommentLine (trim line) = false

theorem isCodeLine_of_trim (trimmed : trim text = text) (single : '\n' ∉ text)
    (code : isCommentLine text = false) : IsCodeLine text := by
  refine ⟨single, ?_, trimmed.symm ▸ code⟩
  intro final
  have some : text ≠ [] := by
    rintro rfl
    cases final
  obtain ⟨c, d, -, last, -, visible⟩ := visible_of_trim trimmed some
  rw [final] at last
  cases last
  cases visible

theorem isCodeLine_of_lexed (lexed : Lexed toks text) (trimmed : trim text = text)
    (single : '\n' ∉ text) : IsCodeLine text := by
  refine isCodeLine_of_trim trimmed single ?_
  rw [isCommentLine, lexed.startsWith_eq_false rfl, lexed.startsWith_eq_false rfl]
  rfl

theorem lines_code (each : ∀ line ∈ lines, IsCodeLine line) :
    Text.lines (textOf lines).toList = lines :=
  lines_textOf fun line mem => ⟨(each line mem).1, (each line mem).2.1⟩

theorem groupsFrom_code (each : ∀ line ∈ lines, IsCodeLine line) (number : Nat) :
    groupsFrom number none lines = [] := by
  induction lines generalizing number with
  | nil => rfl
  | cons line lines ih =>
    obtain ⟨⟨-, -, first⟩, others⟩ := List.forall_mem_cons.1 each
    rw [groupsFrom]
    simp only [first, Bool.false_eq_true, if_false]
    exact ih others _

theorem splitWord_append {keyword : List Char} (none : ' ' ∉ keyword) (rest : List Char) :
    splitWord (keyword ++ ' ' :: rest) = (keyword, rest) := by
  rw [splitWord, splitFirst_append none]
  rfl

theorem readItem_package (progress : Progress) {name : List Char}
    (split : splitWord text = ("package".toList, name)) :
    progress.readItem text number lines =
      .ok ⟨{ progress with package := some (String.ofList (trim name), number) }, number, lines,
        Nat.le_refl _⟩ := by
  rw [Progress.readItem, split]
  rfl

theorem readItem_func {clause : String × Nat} {declared : List Char}
    (opened : progress.package = some clause) (split : splitWord text = ("func".toList, declared)) :
    progress.readItem text number lines = (do
      let ⟨declaration, last, rest, most⟩ ← readFuncDeclaration (trim declared) number lines
      return ⟨progress.addDeclaration declaration, last, rest, most⟩) := by
  rw [Progress.readItem, split, opened]
  rfl

/-- A line that holds code is read as an item. -/
theorem readLines_item {first : List Char} {others : List (List Char)}
    (whole : content first = first)
    (code : (first.isEmpty || startsWith "//" first || startsWith "/*" first) = false) :
    progress.readLines number (first :: others) =
      progress.readItem first (number + 1) others >>= fun ahead =>
        ahead.value.readLines ahead.number ahead.rest := by
  rw [Progress.readLines, whole, code]
  rfl

variable {package : String} {header : List Char}

theorem getLast?_append_some {start : List Char} (last : text.getLast? = some c) :
    (start ++ text).getLast? = some c := by
  rw [List.getLast?_append, last]
  rfl

section

variable (word : isWord package = true)

include word

theorem not_mem_word (other : isWordRest c = false) : c ∉ package.toList := by
  intro mem
  rw [mem_word word c mem] at other
  cases other

theorem trim_word : trim package.toList = package.toList := by
  obtain ⟨c, tail, chars, first⟩ := word_starts word
  obtain ⟨start, d, ending, visible, -⟩ := (Spells.word word).last
  refine trim_of_visible ?_ ?_ (isBlank_of_isWordStart first) visible
  · rw [chars]
    rfl
  · rw [ending, List.getLast?_concat]

theorem lexed_packageLine : Lexed [.word "package", .word package] (packageLine package) := by
  have space : ∀ c ∈ [' '], isBlank c = true := List.forall_mem_singleton.2 (by decide)
  have named := (Lexed.nil (List.forall_mem_nil _)).word word rfl
  rw [List.append_nil] at named
  exact (named.blanks space).word (by decide : isWord "package" = true) rfl

theorem trim_packageLine : trim (packageLine package) = packageLine package := by
  obtain ⟨start, c, ending, visible, -⟩ := (Spells.word word).last
  have last : package.toList.getLast? = some c := by rw [ending, List.getLast?_concat]
  exact trim_of_visible (rfl : _ = some 'p') (getLast?_append_some last) (by decide) visible

theorem isCodeLine_packageLine : IsCodeLine (packageLine package) := by
  have keyword : '\n' ∉ "package ".toList := by decide
  have single : '\n' ∉ packageLine package :=
    List.not_mem_append keyword (not_mem_word word (by decide))
  exact isCodeLine_of_lexed (lexed_packageLine word) (trim_packageLine word) single

/-- The package clause is read first, and then the lines below it. -/
theorem readLines_package (others : List (List Char)) :
    Progress.readLines {} 0 (packageLine package :: others) =
      Progress.readLines { package := some (package, 1) } 1 others := by
  have clause : splitWord (packageLine package) = ("package".toList, package.toList) :=
    splitWord_append (by decide : ' ' ∉ "package".toList) _
  have whole := content_of_lexed (lexed_packageLine word) (trim_packageLine word)
  rw [readLines_item whole rfl, readItem_package _ clause, trim_word word, String.ofList_toList]
  rfl

end

theorem last_funcLine (isBody : IsBody body) :
    (funcLine header body).getLast? = some '\x7d' :=
  getLast?_append_some (getLast?_append_some isBody.closes)

theorem trim_funcLine (isBody : IsBody body) :
    trim (funcLine header body) = funcLine header body :=
  trim_of_visible (rfl : _ = some 'f') (last_funcLine isBody) (by decide) (by decide)

theorem content_funcLine (written : Written toks header) (isBody : IsBody body) :
    content (funcLine header body) = funcLine header body := by
  refine content_of_trim ?_ (trim_funcLine isBody)
  have keyword : Scans .outside "func ".toList 0 := .bare (by simp [scanned, brackets])
  have lexed := tokens_eq_ok_iff.1 (tokens_of_written written)
  have rest : beforeComment .outside (header ++ body) = header ++ body := by
    rw [lexed.scans.comment, isBody.uncommented]
  exact (keyword.comment _).trans (congrArg ("func ".toList ++ ·) rest)

/-- Of a file with a package clause and a function the clause and the function are read. -/
theorem readLines_file (word : isWord package = true) (written : Written toks header)
    (isBody : IsBody body) :
    Progress.readLines {} 0 [packageLine package, funcLine header body] =
      readFuncDeclaration (trim (header ++ body)) 2 [] >>= fun ahead =>
        (Progress.addDeclaration { package := some (package, 1) } ahead.value).readLines
          ahead.number ahead.rest := by
  have item : splitWord (funcLine header body) = ("func".toList, header ++ body) :=
    splitWord_append (by decide : ' ' ∉ "func".toList) _
  rw [readLines_package word, readLines_item (content_funcLine written isBody) rfl,
    readItem_func rfl item]
  cases readFuncDeclaration (trim (header ++ body)) 2 [] <;> rfl

theorem isCodeLine_file (word : isWord package = true) (oneLine : '\n' ∉ header)
    (isBody : IsBody body) :
    ∀ line ∈ [packageLine package, funcLine header body], IsCodeLine line := by
  have keyword : '\n' ∉ "func ".toList := by decide
  have single : '\n' ∉ funcLine header body :=
    List.not_mem_append keyword (List.not_mem_append oneLine isBody.oneLine)
  exact List.forall_mem_cons.2 ⟨isCodeLine_packageLine word, List.forall_mem_singleton.2
    (isCodeLine_of_trim (trim_funcLine isBody) single rfl)⟩

/-- The blanks before the header are left out, and it is still written from its tokens. -/
theorem trim_header (written : Written func.tokens header) (isBody : IsBody body) :
    ∃ chars, trim (header ++ body) = chars ++ body ∧ Written func.tokens chars := by
  have starts : ∃ token others, func.tokens = token :: others := by
    obtain ⟨receiver, name, signature⟩ := func
    cases receiver <;> exact ⟨_, _, rfl⟩
  obtain ⟨token, others, tokens⟩ := starts
  rw [tokens] at written ⊢
  obtain ⟨chars, trimmed, written⟩ := written.trimmedStart body
  have last : (chars ++ body).getLast? = some '\x7d' := getLast?_append_some isBody.closes
  exact ⟨chars, by rw [trim, trimmed, trimEnd_of_visible last (by decide)], written⟩

variable {path : FilePath}

section

variable (word : isWord package = true) (plain : func.isPlain 2 = true)
  (quiet : areQuiet func.tokens = true) (written : Written func.tokens header)
  (oneLine : '\n' ∉ header) (isBody : IsBody body)

include word plain quiet written oneLine isBody

theorem parse_closed (closed : endsOpening func.tokens = false) :
    parse path (fileOf (packageLine package) (funcLine header body)) =
      .ok { path, packageName := package, comments := [], doc := none, imports := []
            unit := { imports := [], declarations := [func.declaration 2] } } := by
  obtain ⟨chars, trimmed, writtenChars⟩ := trim_header written isBody
  obtain ⟨inner, rfl⟩ := List.head?_eq_some_iff.1 isBody.opens
  have read : Progress.readLines {} 0 [packageLine package, funcLine header ('\x7b' :: inner)] =
      .ok (Progress.addDeclaration { package := some (package, 1) } (func.declaration 2)) := by
    rw [readLines_file word written isBody, trimmed,
      readFuncDeclaration_closed plain quiet closed writtenChars isBody.balanced]
    show Progress.readLines _ 2 [] = _
    rw [Progress.readLines]
  have code := isCodeLine_file word oneLine isBody
  rw [fileOf_eq, parse, lines_code code, commentGroups, groupsFrom_code code, read]
  rfl

theorem parse_opening (opening : endsOpening func.tokens = true) :
    ∃ fault, parse path (fileOf (packageLine package) (funcLine header body)) = .error fault := by
  obtain ⟨chars, trimmed, writtenChars⟩ := trim_header written isBody
  obtain ⟨inner, rfl⟩ := List.head?_eq_some_iff.1 isBody.opens
  obtain ⟨located, fails⟩ :=
    @readFuncDeclaration_opening chars func inner 2 [] plain quiet opening writtenChars
  have read := readLines_file word written isBody
  rw [trimmed, fails] at read
  refine ⟨.located located, ?_⟩
  have code := isCodeLine_file word oneLine isBody
  rw [fileOf_eq, parse, lines_code code, commentGroups, groupsFrom_code code, read]
  rfl

end

/-- A function on one line is read back from every text of its header and with every body,
unless the last word of the header ends like the word of a type literal: then the file cannot
be read. -/
theorem func_reads_back (word : isWord package = true) (plain : func.isPlain 2 = true)
    (quiet : areQuiet func.tokens = true) (written : Written func.tokens header)
    (oneLine : '\n' ∉ header) (isBody : IsBody body) :
    (endsOpening func.tokens = false →
      parse path (fileOf (packageLine package) (funcLine header body)) =
        .ok { path, packageName := package, comments := [], doc := none, imports := []
              unit := { imports := [], declarations := [func.declaration 2] } }) ∧
    (endsOpening func.tokens = true → ∃ fault,
      parse path (fileOf (packageLine package) (funcLine header body)) = .error fault) :=
  ⟨parse_closed word plain quiet written oneLine isBody,
    parse_opening word plain quiet written oneLine isBody⟩

theorem areReadable_receiver (plain : receiver.isPlain line = true) :
    areReadable receiver.tokens = true := by
  obtain ⟨name, type⟩ := receiver
  simp only [ReceiverTree.isPlain, Bool.and_eq_true] at plain
  obtain ⟨⟨word, plainType⟩, -⟩ := plain
  have inner := areReadable_append (areReadable_tokens type plainType)
    (rfl : areReadable [.mark .rparen] = true)
  cases name with
  | none => exact areReadable_cons rfl inner
  | some name => exact areReadable_cons rfl (areReadable_cons word inner)

/-- Every header that can be read back has a text. -/
theorem written_func (plain : func.isPlain line = true) :
    Written func.tokens (write func.tokens) := by
  obtain ⟨receiver, name, signature⟩ := func
  simp only [FuncTree.isPlain, Bool.and_eq_true] at plain
  obtain ⟨⟨first, word⟩, plainSignature⟩ := plain
  have after : areReadable (.word name :: signature.tokens) = true :=
    areReadable_cons word (areReadable_signature signature plainSignature)
  apply written_write
  apply List.all_eq_true.1
  cases receiver with
  | none => exact after
  | some receiver =>
    simp only [FuncTree.tokens, Option.toList_some, List.flatMap_singleton]
    exact areReadable_append (areReadable_receiver first) after

/-- A method with a tag that holds braces, and with two results. -/
def sampleFunc : FuncTree where
  receiver := some { name := some "s", type := .pointer (.ident "Server") }
  name := "Handle"
  signature := {
    params := [
      .struct [{ name := "Raw", embedded := false, tag := "json:\"\x7b\x7d\"",
                 type := .slice (.ident "byte"), line := 2 }],
      .slice (.qualified "http" "Option")]
    results := [.map (.ident "string") (.ident "mystruct"), .ident "error"]
    variadic := true }

/-- A body with braces of its own and one more in a literal. -/
def sampleBody : List Char :=
  "\x7b if s.ok \x7b log(\"// \x7b\") \x7d \x7d".toList

theorem sampleBody_isBody : IsBody sampleBody :=
  ⟨by decide, by decide, by decide, by decide, by decide⟩

/-- The sample is read back. -/
theorem func_reads_back_sample : endsOpening sampleFunc.tokens = false ∧
    parse ⟨"a.go"⟩ (fileOf (packageLine "p") (funcLine (write sampleFunc.tokens) sampleBody)) =
      .ok { path := ⟨"a.go"⟩, packageName := "p", comments := [], doc := none, imports := []
            unit := { imports := [], declarations := [sampleFunc.declaration 2] } } := by
  have plain : sampleFunc.isPlain 2 = true := by decide +kernel
  have closed : endsOpening sampleFunc.tokens = false := by decide +kernel
  have quiet : areQuiet sampleFunc.tokens = true := by decide +kernel
  have oneLine : '\n' ∉ write sampleFunc.tokens := by decide +kernel
  exact ⟨closed, (func_reads_back (by decide +kernel) plain quiet (written_func plain) oneLine
    sampleBody_isBody).1 closed⟩

/-! ## Functions that are not read back -/

/-- A file with the function on its second line cannot be read, though the header has the
tokens of the function and the body is one. -/
structure Unread (func : FuncTree) (header body : String) : Prop where
  written : tokens header.toList = .ok func.tokens
  inBraces : IsBody body.toList
  fails : (parse ⟨"a.go"⟩ (fileOf (packageLine "p") (funcLine header.toList body.toList))).isOk =
    false

/-- The body is taken for that of a struct, since the result is called so. -/
theorem unread_after_word :
    let func := ⟨none, "f", ⟨[], [.ident "mystruct"], false⟩⟩
    FuncTree.isPlain 2 func = true ∧ Unread func "f() mystruct " "\x7b return x \x7d" :=
  ⟨by decide +kernel, by decide +kernel, ⟨by decide, by decide, by decide, by decide, by decide⟩,
    by decide +kernel⟩

/-- The brace in the tag is taken for one of the struct. -/
theorem unread_with_tag :
    let func := ⟨none, "f", ⟨[], [.struct [⟨"X", false, "\x7b", .ident "int", 2⟩]], false⟩⟩
    FuncTree.isPlain 2 func = true ∧ Unread func "f() struct\x7bX int \"\x7b\"\x7d " "\x7b \x7d" :=
  ⟨by decide +kernel, by decide +kernel, ⟨by decide, by decide, by decide, by decide, by decide⟩,
    by decide +kernel⟩

/-- The word `map` is taken for the name of the receiver. -/
theorem unread_on_map :
    let receiver := TypeTree.map (.ident "string") (.ident "int")
    receiver.isPlain 2 = true ∧
      Unread ⟨some ⟨none, receiver⟩, "f", ⟨[], [], false⟩⟩ "(map[string]int) f() " "\x7b \x7d" :=
  ⟨by decide +kernel, by decide +kernel, ⟨by decide, by decide, by decide, by decide, by decide⟩,
    by decide +kernel⟩

end Source

end GoAtlas
