import GoAtlas.Proofs.Source.Grammar

/-!
# Parameters that share a type

Where some parameter has a name, the entries of the list fall into groups: entries that wait for
a type, and the one that gives it to them (`ParamGroup`). The types of the list are those of its
groups, one for each entry (`grouped_params`).

An entry that waits is meant to be a name. But it is read as a type, and what it says is lost.
So there are as many types as names if and only if each entry that waits is a word and nothing
more. The list `*a, b int` has two types and one name (`pointer_for_name`).
-/

namespace GoAtlas.Source

variable {line : Nat}

/-- An entry of a list of parameters as it is written. -/
structure ParamSlot (line : Nat) where
  entry : ParamEntry
  /-- The tokens of its type. -/
  own : List Token
  plain : ∀ name ∈ entry.name, isTypeWord name = false
  forms : ∃ rest, Forms line (.type entry.type) own rest

/-- The word, if the tokens are one word. -/
def soleWord? : List Token → Option String
  | [.word name] => some name
  | _ => none

namespace ParamSlot

def tokens (slot : ParamSlot line) : List Token :=
  entryLead slot.entry.name slot.entry.dots ++ slot.own

/-- The entry is a word and nothing more. -/
def isBare (slot : ParamSlot line) : Bool :=
  (soleWord? slot.tokens).isSome

/-- The name that stands in the entry: before its type, or alone. -/
def name? (slot : ParamSlot line) : Option String :=
  slot.entry.name.or (soleWord? slot.tokens)

theorem isSome_name? (slot : ParamSlot line) :
    slot.name?.isSome = (slot.entry.name.isSome || slot.isBare) :=
  Option.isSome_or

end ParamSlot

/-- The entries one after the other, with commas between them and with the closing parenthesis. A
comma may stand before it. -/
inductive Listed : List (ParamSlot line) → List Token → Prop
  | close : Listed [] [.mark .rparen]
  | last {slot : ParamSlot line} : Listed [slot] (slot.tokens ++ [.mark .rparen])
  | next {slot : ParamSlot line} {slots : List (ParamSlot line)} {toks : List Token} :
      Listed slots toks → Listed (slot :: slots) (slot.tokens ++ .mark .comma :: toks)

/-- Entries that share a type: those without a name, which wait for it, and the one with a name,
which gives it. -/
structure ParamGroup (line : Nat) where
  waiting : List (ParamSlot line)
  last : ParamSlot line
  unnamed : ∀ slot ∈ waiting, slot.entry.name = none
  named : last.entry.name.isSome = true

namespace ParamGroup

def slots (group : ParamGroup line) : List (ParamSlot line) :=
  group.waiting ++ [group.last]

/-- The type of the group, once for each of its entries. -/
def types (group : ParamGroup line) : List TypeTree :=
  List.replicate (group.waiting.length + 1) group.last.entry.fullType

theorem length_types (group : ParamGroup line) : group.types.length = group.slots.length := by
  simp [types, slots]

end ParamGroup

variable {entries : List ParamEntry} {types : List TypeTree} {start variadic : Bool}
  {toks own rest : List Token}

theorem listed_of_forms (forms : Forms line (.params entries) own rest) :
    ∃ slots : List (ParamSlot line), slots.map (·.entry) = entries ∧ Listed slots own := by
  generalize same : Phrase.params entries = phrase at forms
  induction forms generalizing entries with
  | noParams =>
    cases same
    exact ⟨[], rfl, .close⟩
  | @lastParam called tree dots own rest plain forms _ =>
    cases same
    let slot : ParamSlot line := ⟨⟨called, tree, dots⟩, own, plain, _, forms⟩
    refine ⟨[slot], rfl, ?_⟩
    rw [← List.append_assoc]
    exact .last
  | @nextParam called tree dots entries own others rest plain forms _ _ ih =>
    cases same
    obtain ⟨slots, rfl, listed⟩ := ih rfl
    let slot : ParamSlot line := ⟨⟨called, tree, dots⟩, own, plain, _, forms⟩
    refine ⟨slot :: slots, rfl, ?_⟩
    rw [← List.append_assoc]
    exact .next listed
  | _ => cases same

/-- In a list with a name the entries fall into groups, and the types are those of the groups. -/
theorem groups_of_paramTypes {waiting slots : List (ParamSlot line)}
    (unnamed : ∀ slot ∈ waiting, slot.entry.name = none)
    (list : paramTypes true waiting.length start (slots.map (·.entry)) = .ok (types, variadic)) :
    ∃ groups : List (ParamGroup line), groups.flatMap ParamGroup.slots = waiting ++ slots ∧
      types = groups.flatMap ParamGroup.types := by
  -- the entries that wait so far come with the induction, as those of the next group
  induction slots generalizing waiting start types with
  | nil =>
    rw [List.map_nil, paramTypes] at list
    split at list
    · next none =>
      cases list
      rw [List.eq_nil_of_length_eq_zero none]
      exact ⟨[], rfl, rfl⟩
    · cases list
  | cons slot slots ih =>
    rw [List.map_cons, paramTypes] at list
    split at list
    · next waits =>
      have none : slot.entry.name = none := by simpa using waits
      have all : ∀ other ∈ waiting ++ [slot], other.entry.name = Option.none :=
        List.forall_mem_append.2 ⟨unnamed, List.forall_mem_singleton.2 none⟩
      have count : (waiting ++ [slot]).length = waiting.length + 1 := by simp
      rw [← count] at list
      obtain ⟨groups, whole, rfl⟩ := ih all list
      exact ⟨groups, by rw [whole, List.append_assoc, List.singleton_append], rfl⟩
    · next gives =>
      obtain ⟨⟨others, flag⟩, inner, done⟩ := Constraint.bind_eq_ok.1 list
      cases done
      obtain ⟨groups, whole, rfl⟩ := ih (List.forall_mem_nil _) inner
      have named : slot.entry.name.isSome = true := by
        cases called : slot.entry.name with
        | none => exact absurd (by rw [called]; rfl) gives
        | some name => rfl
      let group : ParamGroup line := ⟨waiting, slot, unnamed, named⟩
      refine ⟨group :: groups, ?_, rfl⟩
      rw [List.flatMap_cons, whole]
      exact List.append_assoc _ _ _

/-- Each entry has a name if and only if each that waits for a type is a word alone. -/
theorem length_names_iff (groups : List (ParamGroup line)) :
    (groups.flatMap ParamGroup.slots).length =
        ((groups.flatMap ParamGroup.slots).filterMap ParamSlot.name?).length ↔
      ∀ group ∈ groups, ∀ slot ∈ group.waiting, slot.isBare = true := by
  rw [eq_comm, List.filterMap_length_eq_length]
  simp only [List.mem_flatMap, ParamGroup.slots, List.mem_append, List.mem_singleton,
    ParamSlot.isSome_name?]
  constructor
  · intro all group mem slot waits
    have here := all slot ⟨group, mem, .inl waits⟩
    rwa [group.unnamed slot waits] at here
  · rintro bare slot ⟨group, mem, waits | rfl⟩
    · rw [bare group mem slot waits, Bool.or_true]
    · rw [group.named, Bool.true_or]

theorem length_flatMap_types (groups : List (ParamGroup line)) :
    (groups.flatMap ParamGroup.types).length = (groups.flatMap ParamGroup.slots).length := by
  simp only [List.length_flatMap, ParamGroup.length_types]

/-- The types of a list with a name are the types of its groups, one for each entry. There is one
for each name if and only if each entry that waits for a type is a word alone. -/
theorem grouped_params (read : Reads (readParams line) toks entries rest)
    (list : paramList entries = .ok (types, variadic))
    (named : ∃ entry ∈ entries, entry.name.isSome = true) :
    ∃ (groups : List (ParamGroup line)) (slots : List (ParamSlot line)),
      slots = groups.flatMap ParamGroup.slots ∧
      (∃ own, toks = own ++ rest ∧ Listed slots own) ∧ slots.map (·.entry) = entries ∧
      types = groups.flatMap ParamGroup.types ∧ types.length = slots.length ∧
      (types.length = (slots.filterMap ParamSlot.name?).length ↔
        ∀ group ∈ groups, ∀ slot ∈ group.waiting, slot.isBare = true) := by
  have isRead : (Phrase.params entries).IsRead line toks rest := read
  obtain ⟨own, rfl, forms⟩ := isRead_iff_startsWith.1 isRead
  obtain ⟨slots, rfl, listed⟩ := listed_of_forms forms
  have some : ((slots.map (·.entry)).any fun entry => entry.name.isSome) = true :=
    List.any_eq_true.2 named
  rw [paramList, some] at list
  obtain ⟨groups, whole, rfl⟩ := groups_of_paramTypes (List.forall_mem_nil _) list
  rw [List.nil_append] at whole
  have count : (groups.flatMap ParamGroup.types).length = slots.length := by
    rw [length_flatMap_types, whole]
  refine ⟨groups, slots, whole.symm, ⟨own, rfl, listed⟩, rfl, rfl, count, ?_⟩
  rw [count]
  have names := length_names_iff groups
  rwa [whole] at names

/-- The tokens of `a, b int, rest ...string)`. -/
def sampleParams : List Token :=
  [.word "a", .mark .comma, .word "b", .word "int", .mark .comma, .word "rest", .mark .ellipsis,
    .word "string", .mark .rparen]

def sampleEntries : List ParamEntry :=
  [⟨none, .ident "a", false⟩, ⟨some "b", .ident "int", false⟩,
    ⟨some "rest", .ident "string", true⟩]

theorem forms_sample : Forms 1 (.params sampleEntries) sampleParams [] :=
  .nextParam (by simp) (.ident (by decide) (by simp)) <|
    .nextParam (by rintro _ ⟨⟩; decide) (.ident (by decide) (by simp)) <|
      .lastParam (by rintro _ ⟨⟩; decide) (.ident (by decide) (by simp))

/-- Three names in two groups. -/
theorem grouped_params_sample :
    Reads (readParams 1) sampleParams sampleEntries [] ∧
    paramList sampleEntries =
      .ok ([.ident "int", .ident "int", .slice (.ident "string")], true) ∧
    ∃ (groups : List (ParamGroup 1)) (slots : List (ParamSlot 1)),
      slots = groups.flatMap ParamGroup.slots ∧
      (∃ own, sampleParams = own ++ [] ∧ Listed slots own) ∧
      slots.map (·.entry) = sampleEntries ∧
      [.ident "int", .ident "int", .slice (.ident "string")] = groups.flatMap ParamGroup.types ∧
      3 = slots.length ∧
      (3 = (slots.filterMap ParamSlot.name?).length ↔
        ∀ group ∈ groups, ∀ slot ∈ group.waiting, slot.isBare = true) := by
  have read : Reads (readParams 1) sampleParams sampleEntries [] := forms_sample.isRead
  have list : paramList sampleEntries =
      .ok ([.ident "int", .ident "int", .slice (.ident "string")], true) := rfl
  exact ⟨read, list, grouped_params read list ⟨⟨some "b", .ident "int", false⟩, by
    simp [sampleEntries], rfl⟩⟩

/-- The entry before the named one is a pointer, and still it is counted as a name: the type is
read with two parameters. -/
theorem pointer_for_name :
    typeOf 1 "func(*a, b int)".toList =
        .ok (.func ⟨[.ident "int", .ident "int"], [], false⟩) ∧
      ∃ entries, Reads (readParams 1)
          [.mark .star, .word "a", .mark .comma, .word "b", .word "int", .mark .rparen] entries [] ∧
        paramList entries = .ok ([.ident "int", .ident "int"], false) ∧
        entries.map (·.name) = [none, some "b"] ∧
        entries.map (·.type) = [.pointer (.ident "a"), .ident "int"] := by
  let entries : List ParamEntry :=
    [⟨none, .pointer (.ident "a"), false⟩, ⟨some "b", .ident "int", false⟩]
  have forms : Forms 1 (.params entries)
      [.mark .star, .word "a", .mark .comma, .word "b", .word "int", .mark .rparen] [] :=
    .nextParam (by simp) (.pointer (.ident (by decide) (by simp))) <|
      .lastParam (by rintro _ ⟨⟩; decide) (.ident (by decide) (by simp))
  have cut : tokens "func(*a, b int)".toList = .ok (.word "func" :: .mark .lparen ::
      [.mark .star, .word "a", .mark .comma, .word "b", .word "int", .mark .rparen]) := by
    decide +kernel
  exact ⟨typeOf_eq_ok_iff.2 ⟨_, cut, .func (.noResult forms rfl rfl)⟩,
    entries, forms.isRead, rfl, rfl, rfl⟩

end GoAtlas.Source
