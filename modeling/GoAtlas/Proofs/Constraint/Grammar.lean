import GoAtlas.Constraint.Parser
import GoAtlas.Proofs.Constraint.Words

/-!
# The grammar of constraints

`Derives` is the grammar

    E = T { || T }      T = U { && U }      U = ! U | ( E ) | tag

with the constraint each phrase stands for: `&&` binds tighter than `||`, and
both group to the left. The reader takes one word at a time. `Reading.Spelled`
says what the words read so far are, given where the reader stands, so a
sentence that was accepted has a derivation; and a derivation leads the reader
through its words, whatever parentheses are open around them. Together the
reader accepts exactly the sentences (`ofTokens_eq_ok_iff`).

`Constraint.words` writes a constraint with as few parentheses as the grammar
allows, and these words are a sentence for it (`derives_words`).
-/

namespace GoAtlas.Constraint

open Text

/-! ## Phrases -/

/-- The sorts of phrases, from the loosest to the tightest. -/
inductive Phrase where
  /-- Terms between `||`. -/
  | alternatives
  /-- Factors between `&&`. -/
  | term
  | factor
deriving DecidableEq

/-- The words are a phrase for the constraint. -/
inductive Derives : Phrase → List Token → Constraint → Prop
  | tag (name : String) : Derives .factor [.tag name] (.tag name)
  | not {words : List Token} {inner : Constraint} : Derives .factor words inner →
      Derives .factor (.not :: words) (.not inner)
  | parens {words : List Token} {inner : Constraint} : Derives .alternatives words inner →
      Derives .factor (.lparen :: words ++ [.rparen]) inner
  | factor {words : List Token} {constraint : Constraint} : Derives .factor words constraint →
      Derives .term words constraint
  | and {words more : List Token} {left right : Constraint} : Derives .term words left →
      Derives .factor more right → Derives .term (words ++ .and :: more) (.and left right)
  | term {words : List Token} {constraint : Constraint} : Derives .term words constraint →
      Derives .alternatives words constraint
  | or {words more : List Token} {left right : Constraint} : Derives .alternatives words left →
      Derives .term more right → Derives .alternatives (words ++ .or :: more) (.or left right)

/-! ## What was read has a derivation -/

/-- The words on the left of a connective, with the connective, if there are any. -/
inductive LeftSide (phrase : Phrase) (connective : Token) : Option Constraint → List Token → Prop
  | absent : LeftSide phrase connective none []
  | present {words : List Token} {constraint : Constraint} : Derives phrase words constraint →
      LeftSide phrase connective (some constraint) (words ++ [connective])

theorem LeftSide.and {left : Option Constraint} {words more : List Token} {right : Constraint}
    (h : LeftSide .term .and left words) (factor : Derives .factor more right) :
    Derives .term (words ++ more) (joined .and left right) := by
  cases h with
  | absent => exact .factor factor
  | present term =>
    rw [List.append_assoc]
    exact .and term factor

theorem LeftSide.or {left : Option Constraint} {words more : List Token} {right : Constraint}
    (h : LeftSide .alternatives .or left words) (term : Derives .term more right) :
    Derives .alternatives (words ++ more) (joined .or left right) := by
  cases h with
  | absent => exact .term term
  | present alternatives =>
    rw [List.append_assoc]
    exact .or alternatives term

/-- The words between an open parenthesis and the operand that is due. -/
inductive Pending.Spelled : Pending → List Token → Prop
  | intro {here : Pending} {before factors : List Token} :
      LeftSide .alternatives .or here.alternatives before →
      LeftSide .term .and here.factors factors →
      Spelled here (before ++ factors ++ List.replicate here.negations .not)

/-- The words up to the innermost open parenthesis. -/
inductive Opened : List Pending → List Token → Prop
  | nil : Opened [] []
  | cons {here : Pending} {outer : List Pending} {words more : List Token} : Opened outer words →
      here.Spelled more → Opened (here :: outer) (words ++ more ++ [.lparen])

/-- The words that were read when the reader stands here. -/
inductive Reading.Spelled : Reading → List Token → Prop
  | operand {here : Pending} {outer : List Pending} {words more : List Token} :
      Opened outer words → here.Spelled more → Spelled (.operand outer here) (words ++ more)
  | operator {outer : List Pending} {alternatives : Option Constraint} {term : Constraint}
      {words before more : List Token} : Opened outer words →
      LeftSide .alternatives .or alternatives before → Derives .term more term →
      Spelled (.operator outer alternatives term) (words ++ before ++ more)

theorem Pending.spelled_empty : Pending.Spelled {} [] :=
  @Pending.Spelled.intro {} [] [] .absent .absent

theorem derives_negate {words : List Token} {constraint : Constraint}
    (h : Derives .factor words constraint) (n : Nat) :
    Derives .factor (List.replicate n .not ++ words) (negate constraint n) := by
  induction n with
  | zero => exact h
  | succ n ih => exact .not ih

namespace Reading.Spelled

variable {reading after : Reading} {words more : List Token} {word : Token}
  {outer : List Pending} {here : Pending} {operand : Constraint}

/-- An operand takes its place after the words on its left. -/
theorem supply (opened : Opened outer words) (left : here.Spelled more) {last : List Token}
    (factor : Derives .factor last operand) :
    (Reading.supply outer here operand).Spelled (words ++ more ++ last) := by
  obtain ⟨before, factors⟩ := left
  have term := factors.and (derives_negate factor here.negations)
  simpa [Reading.supply] using Spelled.operator opened before term

/-- A word that is read is one word more. -/
theorem step (h : reading.Spelled words) (read : reading.step word = .ok after) :
    after.Spelled (words ++ [word]) := by
  cases h with
  | @operand here outer words more opened left =>
    cases word with
    | not =>
      cases read
      obtain ⟨before, factors⟩ := left
      have longer : Pending.Spelled { here with negations := here.negations + 1 } _ :=
        .intro before factors
      simpa [List.replicate_succ'] using Spelled.operand opened longer
    | lparen =>
      cases read
      simpa using Spelled.operand (.cons opened left) Pending.spelled_empty
    | tag name =>
      cases read
      exact supply opened left (.tag name)
    | rparen | and | or => cases read
  | @operator outer alternatives term words before more opened left derived =>
    cases word with
    | and =>
      cases read
      have next : Pending.Spelled { alternatives, factors := some term } _ :=
        .intro left (.present derived)
      simpa using Spelled.operand opened next
    | or =>
      cases read
      have next : Pending.Spelled { alternatives := some (joined .or alternatives term) } _ :=
        .intro (.present (left.or derived)) .absent
      simpa using Spelled.operand opened next
    | rparen =>
      cases opened with
      | nil => cases read
      | cons opened inner =>
        cases read
        simpa using supply opened inner (.parens (left.or derived))
    | not | lparen | tag name =>
      cases outer <;> cases read

/-- The words that were read one after the other. -/
theorem run (h : reading.Spelled words) (read : more.foldlM Reading.step reading = .ok after) :
    after.Spelled (words ++ more) := by
  induction more generalizing reading words with
  | nil =>
    cases read
    simpa using h
  | cons word more ih =>
    rw [List.foldlM_cons] at read
    obtain ⟨next, stepped, rest⟩ := bind_eq_ok.1 read
    simpa using ih (h.step stepped) rest

/-- Where the words may end they are a sentence. -/
theorem finish {constraint : Constraint} (h : reading.Spelled words)
    (done : reading.finish = .ok constraint) : Derives .alternatives words constraint := by
  cases h with
  | operand => cases done
  | operator opened left derived =>
    cases opened with
    | nil =>
      cases done
      exact left.or derived
    | cons => cases done

end Reading.Spelled

/-! ## A derivation is read -/

theorem negate_not (constraint : Constraint) (n : Nat) :
    negate (.not constraint) n = negate constraint (n + 1) := by
  induction n with
  | zero => rfl
  | succ n ih =>
    rw [negate, ih]
    rfl

/-- The words of a phrase lead the reader to the constraint of the phrase,
whatever stands open around it. -/
def Reads (words : List Token) (constraint : Constraint) : Phrase → Prop
  | .factor => ∀ outer here,
    words.foldlM Reading.step (.operand outer here) = .ok (Reading.supply outer here constraint)
  | .term => ∀ outer alternatives,
    words.foldlM Reading.step (.operand outer { alternatives }) =
      .ok (.operator outer alternatives constraint)
  | .alternatives => ∀ outer, ∃ alternatives term,
    words.foldlM Reading.step (.operand outer {}) = .ok (.operator outer alternatives term) ∧
      joined .or alternatives term = constraint

theorem Derives.reads {phrase : Phrase} {words : List Token} {constraint : Constraint}
    (h : Derives phrase words constraint) : Reads words constraint phrase := by
  induction h with
  | tag name =>
    intro outer here
    rfl
  | @not words inner _ ih =>
    intro outer here
    rw [List.foldlM_cons]
    show words.foldlM Reading.step (.operand outer { here with negations := _ }) = _
    rw [ih outer { here with negations := here.negations + 1 }]
    simp only [Reading.supply, negate_not]
  | @parens words inner _ ih =>
    intro outer here
    obtain ⟨alternatives, term, read, rfl⟩ := ih (here :: outer)
    rw [List.cons_append, List.foldlM_cons]
    show (words ++ [Token.rparen]).foldlM Reading.step (.operand (here :: outer) {}) = _
    rw [List.foldlM_append, read]
    rfl
  | @factor words constraint _ ih =>
    intro outer alternatives
    exact ih outer { alternatives }
  | @and words more left right _ _ ih ih' =>
    intro outer alternatives
    rw [List.foldlM_append, ih outer alternatives]
    show more.foldlM Reading.step (.operand outer { alternatives, factors := some left }) = _
    exact ih' outer { alternatives, factors := some left }
  | @term words constraint _ ih =>
    intro outer
    exact ⟨none, constraint, ih outer none, rfl⟩
  | @or words more left right _ _ ih ih' =>
    intro outer
    obtain ⟨alternatives, term, read, rfl⟩ := ih outer
    refine ⟨some (joined .or alternatives term), right, ?_, rfl⟩
    rw [List.foldlM_append, read]
    exact ih' outer (some (joined .or alternatives term))

/-- The reader accepts exactly the sentences of the grammar. -/
theorem ofTokens_eq_ok_iff {words : List Token} {constraint : Constraint} :
    ofTokens words = .ok constraint ↔ Derives .alternatives words constraint := by
  constructor
  · intro read
    obtain ⟨reading, run, done⟩ := bind_eq_ok.1 read
    have start := Reading.Spelled.operand .nil Pending.spelled_empty
    exact (start.run run).finish done
  · intro derived
    obtain ⟨alternatives, term, read, rfl⟩ := derived.reads []
    rw [ofTokens, read]
    rfl

/-- An expression is read as the constraint of a sentence it splits into. -/
theorem parse_eq_ok_iff {expression : String} {constraint : Constraint} :
    parse expression = .ok constraint ↔
      ∃ words, Splits expression.toList words ∧ Derives .alternatives words constraint := by
  have read : parse expression = .ok constraint ↔
      tokens expression.toList >>= ofTokens = .ok constraint := by
    unfold parse
    cases tokens expression.toList >>= ofTokens with
    | error fault => simp
    | ok other => simp
  rw [read, bind_eq_ok]
  simp only [tokens_eq_ok_iff, ofTokens_eq_ok_iff]

/-! ## Writing a constraint -/

/-- The constraint is an alternative. -/
def isOr : Constraint → Bool
  | .or _ _ => true
  | _ => false

/-- The constraint joins two others. -/
def isJoined : Constraint → Bool
  | .and _ _ | .or _ _ => true
  | _ => false

/-- The words in parentheses, if they need them. -/
def parenthesized (needed : Bool) (words : List Token) : List Token :=
  if needed then .lparen :: words ++ [.rparen] else words

/-- The words of a constraint. In parentheses stand an alternative under `&&`,
anything joined under `!`, and a right side joined as the whole is. -/
def words : Constraint → List Token
  | .tag name => [.tag name]
  | .not inner => .not :: parenthesized inner.isJoined inner.words
  | .and left right =>
    parenthesized left.isOr left.words ++ .and :: parenthesized right.isJoined right.words
  | .or left right => left.words ++ .or :: parenthesized right.isOr right.words

/-- The tags of a constraint. -/
def tags : Constraint → List String
  | .tag name => [name]
  | .not inner => inner.tags
  | .and left right | .or left right => left.tags ++ right.tags

theorem mem_tags_of_mem_words {name : String} (constraint : Constraint)
    (mem : .tag name ∈ constraint.words) : name ∈ constraint.tags := by
  have inner : ∀ {needed : Bool} {words : List Token},
      .tag name ∈ parenthesized needed words → .tag name ∈ words := by
    intro needed words mem
    cases needed with
    | false => exact mem
    | true => simpa [parenthesized] using mem
  induction constraint with
  | tag other => simpa [words, tags] using mem
  | not constraint ih =>
    apply ih
    exact inner (by simpa [words] using mem)
  | and left right ihl ihr =>
    simp only [words, List.mem_append, List.mem_cons, reduceCtorEq, false_or] at mem
    exact List.mem_append.2 (mem.imp (fun mem => ihl (inner mem)) fun mem => ihr (inner mem))
  | or left right ihl ihr =>
    simp only [words, List.mem_append, List.mem_cons, reduceCtorEq, false_or] at mem
    exact List.mem_append.2 (mem.imp ihl fun mem => ihr (inner mem))

/-- Words that are put in parentheses unless they are a phrase of their own are
one at any rate. -/
theorem derives_parenthesized {phrase : Phrase} {needed : Bool} {words : List Token}
    {constraint : Constraint} (whole : Derives .alternatives words constraint)
    (lift : Derives .factor (.lparen :: words ++ [.rparen]) constraint →
      Derives phrase (.lparen :: words ++ [.rparen]) constraint)
    (alone : needed = false → Derives phrase words constraint) :
    Derives phrase (parenthesized needed words) constraint := by
  cases needed with
  | false => exact alone rfl
  | true => exact lift (.parens whole)

/-- The words of a constraint are a phrase of the tightest sort it can be. -/
theorem derives_words (constraint : Constraint) :
    Derives .alternatives constraint.words constraint ∧
      (constraint.isOr = false → Derives .term constraint.words constraint) ∧
      (constraint.isJoined = false → Derives .factor constraint.words constraint) := by
  induction constraint with
  | tag name =>
    have factor := Derives.tag name
    exact ⟨.term (.factor factor), fun _ => .factor factor, fun _ => factor⟩
  | not inner ih =>
    have factor := Derives.not (derives_parenthesized ih.1 (fun parens => parens) ih.2.2)
    exact ⟨.term (.factor factor), fun _ => .factor factor, fun _ => factor⟩
  | and left right ihl ihr =>
    have term := Derives.and (derives_parenthesized ihl.1 .factor ihl.2.1)
      (derives_parenthesized ihr.1 (fun parens => parens) ihr.2.2)
    refine ⟨.term term, fun _ => term, ?_⟩
    intro joined
    cases joined
  | or left right ihl ihr =>
    refine ⟨.or ihl.1 (derives_parenthesized ihr.1 .factor ihr.2.1), ?_, ?_⟩
    · intro joined
      cases joined
    · intro joined
      cases joined

/-- After a tag an operator is due, and no tag. -/
theorem not_isTag_after_tag {reading between after : Reading} {word next : Token}
    (tag : word.isTag = true) (first : reading.step word = .ok between)
    (second : between.step next = .ok after) : next.isTag = false := by
  cases word with
  | tag name =>
    cases reading with
    | operand outer here =>
      cases first
      cases next with
      | tag other => cases outer <;> cases second
      | _ => rfl
    | operator outer alternatives term => cases outer <;> cases first
  | _ => cases tag

/-- No two tags stand side by side in what the reader takes. -/
theorem separated_of_run {words : List Token} {reading after : Reading}
    (read : words.foldlM Reading.step reading = .ok after) : Separated words := by
  induction words generalizing reading with
  | nil => exact .nil
  | cons word words ih =>
    rw [List.foldlM_cons] at read
    obtain ⟨next, stepped, rest⟩ := bind_eq_ok.1 read
    apply List.isChain_cons.2
    refine ⟨?_, ih rest⟩
    intro other mem tag
    cases words with
    | nil => cases mem
    | cons head tail =>
      cases mem
      rw [List.foldlM_cons] at rest
      obtain ⟨later, second, -⟩ := bind_eq_ok.1 rest
      exact not_isTag_after_tag tag stepped second

theorem Derives.separated {words : List Token} {constraint : Constraint}
    (h : Derives .alternatives words constraint) : Separated words := by
  obtain ⟨alternatives, term, read, -⟩ := h.reads []
  exact separated_of_run read

/-- Any way of writing the words of a constraint is read as that constraint. -/
theorem parse_of_written {expression : String} {constraint : Constraint}
    (tags : ∀ name ∈ constraint.tags, isTag name.toList = true)
    (written : Written constraint.words expression.toList) :
    parse expression = .ok constraint := by
  have sentence := (derives_words constraint).1
  apply parse_eq_ok_iff.2
  refine ⟨constraint.words, written.splits sentence.separated ?_, sentence⟩
  intro name mem
  exact tags name (mem_tags_of_mem_words constraint mem)

/-- The reader accepts exactly the grammar: an expression stands for a constraint
if and only if it splits into words that are a sentence for it, and any way of
writing the words of a constraint whose tags are tags is read as that constraint. -/
theorem parse_accepts_grammar (expression : String) (constraint : Constraint) :
    (parse expression = .ok constraint ↔
      ∃ words, Splits expression.toList words ∧ Derives .alternatives words constraint) ∧
    ((∀ name ∈ constraint.tags, isTag name.toList = true) →
      Written constraint.words expression.toList → parse expression = .ok constraint) := by
  exact ⟨parse_eq_ok_iff, parse_of_written⟩

/-- The constraint of an expression whose right sides need parentheses, with blanks
and without. -/
theorem parse_accepts_grammar_nested :
    let constraint : Constraint :=
      .and (.or (.tag "a") (.not (.and (.tag "b") (.tag "c")))) (.and (.tag "d") (.tag "e_1"))
    (∀ name ∈ constraint.tags, isTag name.toList = true) ∧
      Written constraint.words "(a|| !(b&&c) ) &&(\td && e_1)".toList ∧
      parse "(a|| !(b&&c) ) &&(\td && e_1)" = .ok constraint := by
  intro constraint
  have tags : ∀ name ∈ constraint.tags, isTag name.toList = true := by decide
  have written : Written constraint.words "(a|| !(b&&c) ) &&(\td && e_1)".toList := by
    have none : ∀ c ∈ ([] : List Char), isBlank c = true := by simp
    have space : ∀ c ∈ [' '], isBlank c = true := List.forall_mem_singleton.2 rfl
    have tab : ∀ c ∈ ['\t'], isBlank c = true := List.forall_mem_singleton.2 rfl
    exact .cons none (.cons none (.cons none (.cons space (.cons none (.cons none (.cons none
      (.cons none (.cons none (.cons space (.cons space (.cons none (.cons tab (.cons space
        (.cons space (.cons none (.nil none))))))))))))))))
  exact ⟨tags, written, (parse_accepts_grammar _ constraint).2 tags written⟩

end GoAtlas.Constraint
