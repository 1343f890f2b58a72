import GoAtlas.Proofs.TypeExpr.Reader
import GoAtlas.Proofs.Walk.Identity

/-!
# Types over types with one node

The node of a primitive is found by any of its spellings, the node of a type over it by
the description, in which the primitive stands as it is spelled. So the two ways to share
a node do not go together: types that get one node get one node for their slices, pointers
and maps exactly if they have the same name (`composites_of_same_node`), and two spellings
of one primitive have not. Slices of `uint8` and of `byte` are two nodes with one element
(`slices_of_spellings`).
-/

namespace GoAtlas

/-! ## Names and descriptions -/

/-- No primitive is spelled with a bracket or a star. -/
theorem Primitive.not_bracket {entry : String × String} (mem : entry ∈ registered) {char : Char}
    (mem' : char ∈ entry.1.toList) : char ∉ ['[', ']', '*'] := by
  have plain : (registered.all fun entry =>
      entry.1.toList.all fun char => !(List.elem char ['[', ']', '*'])) = true := by
    decide +kernel
  have free := List.all_eq_true.1 (List.all_eq_true.1 plain entry mem) char mem'
  intro bracket
  rw [List.elem_iff.2 bracket] at free
  cases free

theorem Atlas.primitive?_of_mem {name : String} {char : Char} (bracket : char ∈ ['[', ']', '*'])
    (mem : char ∈ name.toList) : primitive? (.bare name) = none := by
  cases spells : primitive? (.bare name) with
  | none => rfl
  | some spelling =>
    have registered := Primitive.mem_of_lookup (primitive?_eq_some spells).2
    exact absurd bracket (Primitive.not_bracket registered mem)

/-- A name that spells no primitive is identified with itself only. -/
theorem Name.identified_iff_eq {name other : Name} (plain : Atlas.primitive? name = none) :
    name.Identified other ↔ name = other := by
  refine or_iff_left ?_
  rintro ⟨primitive, spells, -⟩
  cases plain.symm.trans spells

/-- What comes before the first of two equal separators is the same. -/
theorem append_cons_inj_of_free {separator : Char} {before before' after after' : List Char}
    (free : separator ∉ before) (free' : separator ∉ before') :
    before ++ separator :: after = before' ++ separator :: after' ↔
      before = before' ∧ after = after' := by
  have upTo {before : List Char} (free : separator ∉ before) (after : List Char) :
      (before ++ separator :: after).takeWhile (· != separator) = before := by
    refine Description.takeWhile_append_stop (fun char mem => ?_) ?_
    · exact bne_iff_ne.2 fun same => free (same ▸ mem)
    · rintro _ ⟨⟩
      exact bne_self_eq_false separator
  constructor
  · intro same
    have first := upTo free after
    rw [same, upTo free' after'] at first
    subst first
    exact ⟨rfl, (List.cons.inj (List.append_cancel_left same)).2⟩
  · rintro ⟨rfl, rfl⟩
    rfl

namespace TypeExpr

variable {type other key key' : TypeExpr}

theorem describe_eq_of_canonicalName (same : type.canonicalName = other.canonicalName) :
    type.describe = other.describe := by
  rw [Description.describe_of_canonicalName type, Description.describe_of_canonicalName other, same]

/-- A primitive is described as it is spelled. -/
theorem canonicalName_of_primitive {primitive : String}
    (spells : Atlas.primitive? type.canonicalName = some primitive) :
    type.canonicalName = .bare type.describe := by
  have package := (Atlas.primitive?_eq_some spells).1
  rw [Description.describe_of_canonicalName type, package]
  refine Name.eq_of_slot type.path_canonicalName rfl ?_
  rw [Name.slot, package]
  rfl

/-- Types that are identified are described alike only if they have the same name. -/
theorem describe_eq_iff (identified : type.canonicalName.Identified other.canonicalName) :
    type.describe = other.describe ↔ type.canonicalName = other.canonicalName := by
  refine ⟨fun same => ?_, describe_eq_of_canonicalName⟩
  rcases identified with equal | ⟨primitive, here, there⟩
  · exact equal
  · rw [canonicalName_of_primitive here, canonicalName_of_primitive there, same]

theorem identified_slice_iff :
    (slice type).canonicalName.Identified (slice other).canonicalName ↔
      type.describe = other.describe := by
  have plain : Atlas.primitive? (slice type).canonicalName = none := by
    refine Atlas.primitive?_of_mem (by decide : '[' ∈ ['[', ']', '*']) ?_
    simp [describe]
  rw [Name.identified_iff_eq plain]
  simp [canonicalName, describe, Name.bare]

theorem identified_pointer_iff :
    (pointer type).canonicalName.Identified (pointer other).canonicalName ↔
      type.describe = other.describe := by
  have plain : Atlas.primitive? (pointer type).canonicalName = none := by
    refine Atlas.primitive?_of_mem (by decide : '*' ∈ ['[', ']', '*']) ?_
    simp [describe]
  rw [Name.identified_iff_eq plain]
  simp [canonicalName, describe, Name.bare]

/-- The description of a key ends at the first bracket where the keys spell a primitive. -/
theorem describe_map_eq_iff (keys : key.canonicalName.Identified key'.canonicalName) :
    (map key type).describe = (map key' other).describe ↔
      key.describe = key'.describe ∧ type.describe = other.describe := by
  have split : (map key type).describe = (map key' other).describe ↔
      key.describe.toList ++ ']' :: type.describe.toList =
        key'.describe.toList ++ ']' :: other.describe.toList := by
    rw [← String.toList_inj]
    simp [describe]
  rw [split]
  rcases keys with same | ⟨primitive, here, there⟩
  · rw [describe_eq_of_canonicalName same, List.append_cancel_left_eq, List.cons_inj_right,
      String.toList_inj]
    exact (and_iff_right rfl).symm
  · have free {key : TypeExpr} (spells : Atlas.primitive? key.canonicalName = some primitive) :
        ']' ∉ key.describe.toList := by
      intro mem
      rw [canonicalName_of_primitive spells, Atlas.primitive?_of_mem (by decide) mem] at spells
      cases spells
    rw [← String.toList_inj, ← @String.toList_inj type.describe]
    exact append_cons_inj_of_free (free here) (free there)

theorem identified_map_iff (keys : key.canonicalName.Identified key'.canonicalName) :
    (map key type).canonicalName.Identified (map key' other).canonicalName ↔
      key.describe = key'.describe ∧ type.describe = other.describe := by
  have plain : Atlas.primitive? (map key type).canonicalName = none := by
    refine Atlas.primitive?_of_mem (by decide : '[' ∈ ['[', ']', '*']) ?_
    simp [describe]
  rw [Name.identified_iff_eq plain, ← describe_map_eq_iff keys]
  simp [canonicalName, Name.bare]

end TypeExpr

/-! ## Composites -/

/-- Two types are walked in a run: what happened before the first and between the two, and
the moments of both. -/
structure Occasion where
  past : List Event
  between : List Event
  first : Moment
  second : Moment

namespace Occasion

variable {occasion : Occasion} {type other : TypeExpr}

/-- The two types get one node. -/
def SameNode (occasion : Occasion) (type other : TypeExpr) : Prop :=
  let one := occasion.first.walk none type (Event.runAll {} occasion.past)
  one.1 = (occasion.second.walk none other (Event.runAll one.2.atlas occasion.between)).1

theorem sameNode_iff :
    occasion.SameNode type other ↔ type.canonicalName.Identified other.canonicalName := by
  obtain ⟨past, between, first, second⟩ := occasion
  unfold SameNode
  dsimp only
  generalize reached : Event.runAll {} past = atlas
  have consistent : atlas.Consistent :=
    reached ▸ (Event.follows_runAll {} past).consistent Atlas.consistent_empty
  have here := Walk.findType?_type first.lookup first.depth type { atlas, busy := first.busy }
  have follows := first.follows_walk none type atlas
  rw [← Moment.walk] at here
  generalize first.walk none type atlas = one at here follows
  have there := Walk.findType?_type second.lookup second.depth other
    { atlas := Event.runAll one.2.atlas between, busy := second.busy }
  have onward : one.2.atlas.Follows
      (second.walk none other (Event.runAll one.2.atlas between)).2.atlas :=
    (Event.follows_runAll _ between).trans (second.follows_walk none other _)
  rw [TypeExpr.identified_iff]
  exact ((follows.trans onward).consistent consistent).target_eq_iff (onward.bound _ _ here) there

/-- Whatever happens in a run: if two types get one node, they have the same name or spell
one primitive, and their slices get one node, whenever they are walked, exactly if the
names are the same. So do their pointers; and so do maps, where the keys get one node, if
the names of the keys are the same as well. -/
theorem composites_of_same_node (same : occasion.SameNode type other) :
    type.canonicalName.Identified other.canonicalName ∧
    ∀ later : Occasion,
      (later.SameNode (.slice type) (.slice other) ↔
        type.canonicalName = other.canonicalName) ∧
      (later.SameNode (.pointer type) (.pointer other) ↔
        type.canonicalName = other.canonicalName) ∧
      ∀ (keys : Occasion) (key key' : TypeExpr), keys.SameNode key key' →
        (later.SameNode (.map key type) (.map key' other) ↔
          key.canonicalName = key'.canonicalName ∧ type.canonicalName = other.canonicalName) := by
  have identified := sameNode_iff.1 same
  have described := TypeExpr.describe_eq_iff identified
  refine ⟨identified, fun later => ⟨?_, ?_, fun keys key key' sameKey => ?_⟩⟩
  · rw [sameNode_iff, TypeExpr.identified_slice_iff, described]
  · rw [sameNode_iff, TypeExpr.identified_pointer_iff, described]
  · have identified' := sameNode_iff.1 sameKey
    rw [sameNode_iff, TypeExpr.identified_map_iff identified', described,
      TypeExpr.describe_eq_iff identified']

/-- Two types walked one after the other in a new atlas, where nothing is defined. -/
def plain : Occasion :=
  { past := []
    between := []
    first := .outset ⟨⟨[]⟩, {}⟩
    second := .outset ⟨⟨[]⟩, {}⟩ }

/-- A named type without package has the name of a primitive that is spelled like it, and
maps over the two share a node unless their keys are spelled in two ways. -/
theorem composites_of_same_node_error :
    plain.SameNode (.named "" "error") (.basic "error") ∧
      plain.SameNode (.map (.basic "int8") (.named "" "error"))
        (.map (.basic "int8") (.basic "error")) ∧
      ¬ plain.SameNode (.map (.basic "int8") (.named "" "error"))
        (.map (.basic "uint8") (.basic "error")) := by
  have same : plain.SameNode (.named "" "error") (.basic "error") := sameNode_iff.2 (.inl rfl)
  have reflexive : plain.SameNode (.basic "int8") (.basic "int8") := sameNode_iff.2 (.inl rfl)
  have spellings : plain.SameNode (.basic "int8") (.basic "uint8") :=
    sameNode_iff.2 (.inr ⟨"byte", by decide, by decide⟩)
  have maps := ((composites_of_same_node same).2 plain).2.2 plain
  refine ⟨same, (maps _ _ reflexive).2 ⟨rfl, rfl⟩, fun shared => ?_⟩
  have names := ((maps _ _ spellings).1 shared).1
  revert names
  decide

/-- Two spellings of one primitive share a node. Slices of them do not, although the nodes
of both are slices with the same element. -/
theorem slices_of_spellings :
    let one := plain.first.walk none (.slice (.basic "uint8")) {}
    let two := plain.second.walk none (.slice (.basic "byte")) one.2.atlas
    plain.SameNode (.basic "uint8") (.basic "byte") ∧
      ¬ plain.SameNode (.slice (.basic "uint8")) (.slice (.basic "byte")) ∧
      ∃ elem, (two.2.atlas.node? one.1).map Node.kind = some (.slice elem) ∧
        (two.2.atlas.node? two.1).map Node.kind = some (.slice elem) := by
  intro one two
  refine ⟨?_, fun shared => ?_, 1, ?_⟩
  · exact sameNode_iff.2 (.inr ⟨"byte", by decide, by decide⟩)
  · have names := TypeExpr.identified_slice_iff.1 (sameNode_iff.1 shared)
    revert names
    decide
  · decide +kernel

end Occasion

end GoAtlas
