import GoAtlas.Constraint.Legacy
import Mathlib.Data.List.Chain

/-!
# Words of a text

`Splits` says how a text is cut into the words of a constraint, without the
procedure that cuts it: blanks only separate, a tag is a run of tag characters
that cannot be made longer, and every other word is written in one way. Cutting
succeeds exactly on the texts that split, with the words they split into
(`tokens_eq_ok_iff`).

`Written` is the way back: words written one after the other, with any blanks
around them. What is written splits into the same words as long as no two tags
stand side by side (`Written.splits`).
-/

namespace GoAtlas.Constraint

open Text

variable {c : Char}

/-! ## Characters -/

/-- The code points of the blank characters. -/
def blankCodes : List Nat :=
  blankRanges.flatMap fun range => List.range' range.1 (range.2 + 1 - range.1)

theorem mem_blankCodes (blank : isBlank c = true) : c.toNat ∈ blankCodes := by
  obtain ⟨range, listed, low, high⟩ := inRanges_eq_true_iff.1 blank
  apply List.mem_flatMap.2
  refine ⟨range, listed, ?_⟩
  rw [List.mem_range'_1]
  omega

theorem not_isTagChar_of_mem : ∀ code ∈ blankCodes, isTagChar (Char.ofNat code) = false := by
  decide +kernel

/-- A blank is no part of a tag. -/
theorem isTagChar_of_isBlank (blank : isBlank c = true) : isTagChar c = false := by
  have code := not_isTagChar_of_mem c.toNat (mem_blankCodes blank)
  rwa [Char.ofNat_toNat] at code

/-! ## Splitting a text -/

/-- The characters a word is written with. -/
def Token.chars : Token → List Char
  | .lparen => ['(']
  | .rparen => [')']
  | .not => ['!']
  | .and => ['&', '&']
  | .or => ['|', '|']
  | .tag name => name.toList

/-- The word is a tag. -/
def Token.isTag : Token → Bool
  | .tag _ => true
  | _ => false

/-- No tag goes on with this text. -/
def Stops (text : List Char) : Prop :=
  ∀ c ∈ text.head?, isTagChar c = false

/-- The words a text is cut into. -/
inductive Splits : List Char → List Token → Prop
  | nil : Splits [] []
  | blank {c : Char} {rest : List Char} {words : List Token} : isBlank c = true →
      Splits rest words → Splits (c :: rest) words
  | symbol {word : Token} {rest : List Char} {words : List Token} : word.isTag = false →
      Splits rest words → Splits (word.chars ++ rest) (word :: words)
  | tag {run rest : List Char} {words : List Token} : isTag run = true → Stops rest →
      Splits rest words → Splits (run ++ rest) (.tag (String.ofList run) :: words)

theorem isTag_iff {run : List Char} :
    isTag run = true ↔ run ≠ [] ∧ ∀ c ∈ run, isTagChar c = true := by
  simp [isTag]

theorem stops_nil : Stops [] := by
  simp [Stops]

theorem stops_cons {rest : List Char} : Stops (c :: rest) ↔ isTagChar c = false := by
  simp [Stops]

/-- The characters of a word that is no tag stop a tag. -/
theorem stops_chars {word : Token} {rest : List Char} (symbol : word.isTag = false) :
    Stops (word.chars ++ rest) := by
  cases word with
  | tag name => cases symbol
  | _ =>
    apply stops_cons.2
    decide

/-- The run of tag characters before a text that stops it is one tag, or nothing. -/
theorem Splits.flush {run rest : List Char} {words : List Token}
    (tags : ∀ c ∈ run, isTagChar c = true) (stops : Stops rest) (h : Splits rest words) :
    Splits (run.reverse ++ rest) (flush run ++ words) := by
  unfold Constraint.flush
  by_cases none : run = []
  · simpa [none] using h
  · have tag : isTag run.reverse = true := by
      apply isTag_iff.2
      simpa [none] using tags
    simpa [none] using Splits.tag tag stops h

/-! ## Cutting a text -/

variable {offset : Nat} {run text rest : List Char} {words : List Token}

theorem map_eq_ok {α β ε : Type} {f : α → β} {x : Except ε α} {b : β} :
    f <$> x = .ok b ↔ ∃ a, x = .ok a ∧ f a = b := by
  cases x with
  | error e => simp [Functor.map, Except.map]
  | ok a => simp [Functor.map, Except.map]

theorem bind_eq_ok {α β ε : Type} {x : Except ε α} {f : α → Except ε β} {b : β} :
    x >>= f = .ok b ↔ ∃ a, x = .ok a ∧ f a = .ok b := by
  cases x with
  | error e => simp [bind, Except.bind]
  | ok a => simp [bind, Except.bind]

/-- A word that is no tag ends the run before it. -/
theorem Splits.symbol_after (word : Token) (tags : ∀ c ∈ run, isTagChar c = true)
    (symbol : word.isTag = false) (h : Splits rest words) :
    Splits (run.reverse ++ (word.chars ++ rest)) (Constraint.flush run ++ word :: words) := by
  exact Splits.flush tags (stops_chars symbol) (.symbol symbol h)

/-- The words that were cut off a text are words it splits into. The run of the
tag that is being read stands before the text. -/
theorem splits_of_tokensFrom (tags : ∀ c ∈ run, isTagChar c = true)
    (h : tokensFrom offset run text = .ok words) : Splits (run.reverse ++ text) words := by
  fun_induction tokensFrom offset run text generalizing words
  case case1 =>
    cases h
    simpa using Splits.flush tags stops_nil .nil
  case case2 ih =>
    obtain ⟨more, cut, rfl⟩ := map_eq_ok.1 h
    exact Splits.symbol_after .and tags rfl (ih (by simp) cut)
  case case3 ih =>
    obtain ⟨more, cut, rfl⟩ := map_eq_ok.1 h
    exact Splits.symbol_after .or tags rfl (ih (by simp) cut)
  case case4 tag ih =>
    rw [List.append_cons, ← List.reverse_cons]
    exact ih (List.forall_mem_cons.2 ⟨tag, tags⟩) h
  case case5 blank ih =>
    obtain ⟨more, cut, rfl⟩ := map_eq_ok.1 h
    refine Splits.flush tags ?_ (.blank blank (ih (by simp) cut))
    exact stops_cons.2 (isTagChar_of_isBlank blank)
  case case6 ih =>
    obtain ⟨more, cut, rfl⟩ := map_eq_ok.1 h
    exact Splits.symbol_after .lparen tags rfl (ih (by simp) cut)
  case case7 ih =>
    obtain ⟨more, cut, rfl⟩ := map_eq_ok.1 h
    exact Splits.symbol_after .rparen tags rfl (ih (by simp) cut)
  case case8 ih =>
    obtain ⟨more, cut, rfl⟩ := map_eq_ok.1 h
    exact Splits.symbol_after .not tags rfl (ih (by simp) cut)
  case case9 => cases h
  case case10 => cases h

/-! ## Cutting what splits -/

/-- A character that is not doubled is read by its class. -/
theorem tokensFrom_cons (notAnd : c ≠ '&') (notOr : c ≠ '|') :
    tokensFrom offset run (c :: rest) =
      if isTagChar c then tokensFrom (offset + c.utf8Size) (c :: run) rest
      else if isBlank c then (flush run ++ ·) <$> tokensFrom (offset + c.utf8Size) [] rest
      else if c = '(' then (flush run ++ .lparen :: ·) <$> tokensFrom (offset + c.utf8Size) [] rest
      else if c = ')' then (flush run ++ .rparen :: ·) <$> tokensFrom (offset + c.utf8Size) [] rest
      else if c = '!' then (flush run ++ .not :: ·) <$> tokensFrom (offset + c.utf8Size) [] rest
      else .error (.strangeChar c offset) := by
  rw [tokensFrom]
  · simp [notAnd, notOr]
  · intro _ same
    exact absurd same notAnd
  · intro _ same
    exact absurd same notOr

theorem tokensFrom_tagChar (tag : isTagChar c = true) :
    tokensFrom offset run (c :: rest) = tokensFrom (offset + c.utf8Size) (c :: run) rest := by
  rw [tokensFrom_cons, if_pos tag]
  · rintro rfl
    exact absurd tag (by decide)
  · rintro rfl
    exact absurd tag (by decide)

theorem tokensFrom_blank (blank : isBlank c = true) :
    tokensFrom offset run (c :: rest) =
      (flush run ++ ·) <$> tokensFrom (offset + c.utf8Size) [] rest := by
  rw [tokensFrom_cons, if_neg (by simp [isTagChar_of_isBlank blank]), if_pos blank]
  · rintro rfl
    exact absurd blank (by decide)
  · rintro rfl
    exact absurd blank (by decide)

/-- A run of tag characters is read before what follows it. -/
theorem tokensFrom_run (more : List Char) (tags : ∀ c ∈ more, isTagChar c = true) :
    ∀ (offset : Nat) (run : List Char), ∃ later,
      tokensFrom offset run (more ++ rest) = tokensFrom later (more.reverse ++ run) rest := by
  induction more with
  | nil =>
    intro offset run
    exact ⟨offset, rfl⟩
  | cons c more ih =>
    intro offset run
    obtain ⟨later, read⟩ := ih (fun d mem => tags d (List.mem_cons_of_mem _ mem))
      (offset + c.utf8Size) (c :: run)
    refine ⟨later, ?_⟩
    rw [List.cons_append, tokensFrom_tagChar (tags c List.mem_cons_self), read]
    simp

/-- A word that is no tag ends the run before it. -/
theorem tokensFrom_symbol {word : Token} (symbol : word.isTag = false) : ∃ later,
    tokensFrom offset run (word.chars ++ rest) =
      (flush run ++ word :: ·) <$> tokensFrom later [] rest := by
  cases word with
  | tag name => cases symbol
  | and | or => exact ⟨offset + 2, by simp [Token.chars, tokensFrom]⟩
  | lparen | rparen | not =>
    refine ⟨offset + 1, ?_⟩
    rw [Token.chars, List.singleton_append, tokensFrom_cons (by decide) (by decide)]
    rfl

/-- Where a run stops it is a word. -/
theorem tokensFrom_of_splits (h : Splits text words) :
    ∀ (offset : Nat) (run : List Char), (run ≠ [] → Stops text) →
      tokensFrom offset run text = .ok (flush run ++ words) := by
  induction h with
  | nil =>
    intro offset run _
    simp [tokensFrom]
  | @blank c rest words blank _ ih =>
    intro offset run _
    rw [tokensFrom_blank blank, ih _ [] (by simp)]
    rfl
  | @symbol word rest words symbol _ ih =>
    intro offset run _
    obtain ⟨later, read⟩ := @tokensFrom_symbol offset run rest word symbol
    rw [read, ih later [] (by simp)]
    rfl
  | @tag tag rest words isTag stops _ ih =>
    intro offset run stopped
    obtain ⟨some, tags⟩ := isTag_iff.1 isTag
    -- the tag is read from its start: a run before it would have gone on
    have none : run = [] := by
      by_contra open_
      obtain ⟨c, more, rfl⟩ := List.exists_cons_of_ne_nil some
      have tagged := tags c List.mem_cons_self
      rw [stops_cons.1 (stopped open_)] at tagged
      cases tagged
    obtain ⟨later, read⟩ := @tokensFrom_run rest tag tags offset run
    rw [read, none, List.append_nil, ih later _ fun _ => stops]
    simp [flush, some]

/-- A text is cut into exactly the words it splits into. -/
theorem tokens_eq_ok_iff : tokens text = .ok words ↔ Splits text words := by
  constructor
  · intro cut
    exact splits_of_tokensFrom (by simp) cut
  · intro splits
    exact tokensFrom_of_splits splits 0 [] (by simp)

/-! ## Writing words -/

/-- Words written one after the other, with any blanks around them. -/
inductive Written : List Token → List Char → Prop
  | nil {blanks : List Char} : (∀ c ∈ blanks, isBlank c = true) → Written [] blanks
  | cons {blanks text : List Char} {word : Token} {words : List Token} :
      (∀ c ∈ blanks, isBlank c = true) → Written words text →
      Written (word :: words) (blanks ++ word.chars ++ text)

theorem Splits.blanks {blanks : List Char} (blank : ∀ c ∈ blanks, isBlank c = true)
    (h : Splits text words) : Splits (blanks ++ text) words := by
  induction blanks with
  | nil => exact h
  | cons c blanks ih =>
    apply Splits.blank (blank c List.mem_cons_self)
    exact ih fun d mem => blank d (List.mem_cons_of_mem _ mem)

/-- A tag ends before the next word, unless that is a tag as well. -/
theorem Written.stops (h : Written words text) (apart : ∀ word ∈ words.head?, word.isTag = false) :
    Stops text := by
  cases h with
  | nil blank =>
    cases text with
    | nil => exact stops_nil
    | cons c rest =>
      exact stops_cons.2 (isTagChar_of_isBlank (blank c List.mem_cons_self))
  | @cons blanks text word words blank _ =>
    cases blanks with
    | nil =>
      rw [List.nil_append]
      exact stops_chars (apart word rfl)
    | cons c blanks =>
      exact stops_cons.2 (isTagChar_of_isBlank (blank c List.mem_cons_self))

/-- No two tags stand side by side. -/
def Separated (words : List Token) : Prop :=
  words.IsChain fun word next => word.isTag = true → next.isTag = false

/-- Words that were written are read again, whatever the blanks between them. -/
theorem Written.splits (h : Written words text) (apart : Separated words)
    (tags : ∀ name, .tag name ∈ words → isTag name.toList = true) : Splits text words := by
  induction h with
  | @nil blanks blank =>
    simpa using Splits.blanks blank .nil
  | @cons blanks text word words blank written ih =>
    obtain ⟨next, others⟩ := List.isChain_cons.1 apart
    have rest := ih others fun name mem => tags name (List.mem_cons_of_mem _ mem)
    rw [List.append_assoc]
    apply Splits.blanks blank
    cases word with
    | tag name =>
      have stops := written.stops fun word mem => next word mem rfl
      have split := Splits.tag (tags name List.mem_cons_self) stops rest
      rwa [String.ofList_toList] at split
    | _ => exact .symbol rfl rest

end GoAtlas.Constraint
