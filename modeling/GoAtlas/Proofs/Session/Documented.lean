import GoAtlas.Proofs.Session.Comments
import GoAtlas.Proofs.Session.Described

/-!
# The documentation of declarations

A survey documents the node of each type and of each function that it comes to. Comments
of a node are written again whenever another declaration leads to the same node, so the
last one in the order of the survey is the one that shows. `Annotates` says which slots a
part of a survey documents; every node that none of them leads to keeps its comments.

A function shares its node with nothing but a function of the same name. A type shares it
with its aliases, in its own package and in others, and one with a dot in its name may
share it with a method.
-/

namespace GoAtlas

/-! ## Slots -/

namespace Slot

/-- The slot belongs to a method. -/
def IsMethod (slot : Slot) : Prop :=
  ∃ owner method, slot = (methodName owner method).slot

theorem shelf_canonical (slot : Slot) : slot.canonical.shelf = slot.shelf := by
  unfold canonical
  split <;> rfl

/-- Only primitives are spelled in several ways. -/
theorem eq_of_canonical {slot other : Slot} (plain : slot.primitive? = none)
    (same : other.canonical = slot.canonical) : other = slot := by
  have spells : other.primitive? = none := by
    rw [← primitive?_canonical, same, primitive?_canonical, plain]
  rwa [canonical_eq_self plain, canonical_eq_self spells] at same

/-- A method has a dot in its name, and no other name for its node. -/
theorem IsMethod.dot_mem {slot other : Slot} (h : slot.IsMethod)
    (same : other.canonical = slot.canonical) : '.' ∈ other.name.toList := by
  obtain ⟨owner, method, rfl⟩ := h
  have plain : (methodName owner method).slot.primitive? = none :=
    primitive?_methodName owner method
  rw [eq_of_canonical plain same]
  simp [Name.slot, methodName]

end Slot

namespace Atlas

variable {before between after atlas : Atlas} {documented others : Slot → Prop}

/-- The later atlas may have been made from the earlier one by documenting nodes of methods
and of the given slots. -/
structure Annotates (documented : Slot → Prop) (before after : Atlas) : Prop
    extends Lasts before after where
  consistent : before.Consistent → after.Consistent
  comments : ∀ id node later, before.node? id = some node → after.node? id = some later →
    later.comments = node.comments ∨
      ∃ slot, (slot.IsMethod ∨ documented slot) ∧ after.target? slot = some id

namespace Annotates

/-- The comments may all be as they were. -/
theorem of_same (lasts : before.Lasts after) (consistent : before.Consistent → after.Consistent)
    (same : ∀ id node later, before.node? id = some node → after.node? id = some later →
      later.comments = node.comments) : Annotates documented before after :=
  ⟨lasts, consistent, fun id node later hn hl => .inl (same id node later hn hl)⟩

theorem refl (documented : Slot → Prop) (atlas : Atlas) : Annotates documented atlas atlas := by
  refine of_same (.refl atlas) id fun id node later hn hl => ?_
  rw [hn] at hl
  cases hl
  rfl

theorem trans (h : Annotates documented before between)
    (h' : Annotates documented between after) : Annotates documented before after where
  toLasts := h.toLasts.trans h'.toLasts
  consistent start := h'.consistent (h.consistent start)
  comments id node later hn hl := by
    obtain ⟨middle, hm, -⟩ := h.kept id node hn
    rcases h'.comments id middle later hm hl with second | written
    · rcases h.comments id node middle hn hm with first | ⟨slot, written, leads⟩
      · exact .inl (second.trans first)
      · exact .inr ⟨slot, written, h'.bound slot id leads⟩
    · exact .inr written

theorem mono (h : Annotates documented before after)
    (more : ∀ slot, documented slot → others slot) : Annotates others before after where
  toLasts := h.toLasts
  consistent := h.consistent
  comments id node later hn hl := by
    rcases h.comments id node later hn hl with same | ⟨slot, written, leads⟩
    · exact .inl same
    · exact .inr ⟨slot, written.imp_right (more slot), leads⟩

/-- A walk documents methods only. -/
theorem addType (lookup : Lookup) (type : TypeExpr) (walk : Walk) :
    Annotates documented walk.atlas (walk.addType lookup none type).2.atlas := by
  obtain ⟨reserves, consistent⟩ := Walk.carries_consistent.addType lookup none type walk
  refine ⟨reserves.toExtends.lasts, consistent, fun id node later hn hl => ?_⟩
  rcases reserves.comments id node later hn hl with same | ⟨owner, method, leads⟩
  · exact .inl same
  · exact .inr ⟨_, .inl ⟨owner, method, rfl⟩, leads⟩

/-- A declaration that is made documents methods only. -/
theorem declare (lookup : Lookup) (sort : DeclarationSort) (name : Name) (type : TypeExpr)
    (walk : Walk) :
    Annotates documented walk.atlas (walk.declare lookup sort name type).2.atlas := by
  have entered : Annotates documented walk.atlas (walk.atlas.declarationNode sort name).2 := by
    refine of_same (Extends.declarationNode walk.atlas sort name).lasts
      (fun start => start.declarationNode sort name) fun id node later hn hl => ?_
    have kept : (walk.atlas.declarationNode sort name).2.node? id = some node := by
      rw [declarationNode_eq]
      split
      · exact hn
      · exact node?_addNode_of_some hn
    cases kept.symm.trans hl
    rfl
  refine (entered.trans (addType lookup type { walk with
    atlas := (walk.atlas.declarationNode sort name).2 })).trans ?_
  refine of_same (lasts_declare _ _ _) (fun start => start.declare _ _)
    fun id node later hn hl => ?_
  rcases node?_declare hn (walk.atlas.declarationNode sort name).1 (Walk.addType lookup none type
    { walk with atlas := (walk.atlas.declarationNode sort name).2 }).1 with same | ⟨-, finished⟩
  · cases same.symm.trans hl
    rfl
  · cases finished.symm.trans hl
    rfl

/-- The node of a slot may be documented. -/
theorem attachDoc (lookup : Lookup) {walk : Walk} {slot : Slot} {id : NodeId}
    (leads : walk.atlas.target? slot = some id) (here : documented slot) (pos : Option Position) :
    Annotates documented walk.atlas (walk.attachDoc lookup id pos).atlas where
  toLasts := Visit.lasts lookup walk (.attachDoc id pos)
  consistent start := Walk.consistent_attachDoc lookup start id pos
  comments other node later hn hl := by
    obtain ⟨found, hf, -, -, -, elsewhere⟩ := Visit.node?_attachDoc lookup hn pos
    cases hf.symm.trans hl
    by_cases same : other = id
    · refine .inr ⟨slot, .inr here, ?_⟩
      rw [Walk.target?_attachDoc, leads, same]
    · exact .inl (congrArg Node.comments (elsewhere same))

end Annotates

end Atlas

/-! ## Surveys -/

/-- The slot of the node that a declaration documents. -/
def Declaration.documented? (package : String) (declaration : Declaration) : Option Slot :=
  match declaration.declared with
  | .type type => some type.canonicalName.slot
  | .func signature =>
    if signature.receiver.isSome then none
    else some (Atlas.declarationSlot package .function declaration.name)
  | .var _ | .const _ => none

theorem Declaration.documented?_cases {package : String} {declaration : Declaration} {slot : Slot}
    (documents : declaration.documented? package = some slot) :
    (∃ type, declaration.declared = .type type ∧ slot = type.canonicalName.slot) ∨
      ∃ signature, declaration.declared = .func signature ∧
        signature.receiver.isSome = false ∧
        slot = Atlas.declarationSlot package .function declaration.name := by
  rw [documented?] at documents
  cases declared : declaration.declared with
  | type type =>
    rw [declared] at documents
    exact .inl ⟨type, rfl, (Option.some.inj documents).symm⟩
  | func signature =>
    rw [declared] at documents
    dsimp only at documents
    split at documents
    · cases documents
    · next function =>
      refine .inr ⟨signature, rfl, ?_, (Option.some.inj documents).symm⟩
      exact Bool.eq_false_iff.2 function
  | var _ =>
    rw [declared] at documents
    cases documents
  | const _ =>
    rw [declared] at documents
    cases documents

namespace Session

section Declarations

variable (lookup : Lookup) (package : String) (walk : Walk)

/-- The slot of a declaration leads to its node. -/
theorem target?_declare_self (sort : DeclarationSort) (name : String) (type : TypeExpr) :
    (walk.declare lookup sort { package, name } type).2.atlas.target?
        (Atlas.declarationSlot package sort name) =
      some (walk.declare lookup sort { package, name } type).1 := by
  unfold Walk.declare
  dsimp only
  rw [Atlas.target?_declare, Walk.target?_addType]
  dsimp only
  rw [Atlas.declarationNode_eq]
  split
  · next id found => exact found
  · rw [Atlas.target?_addNode]
    exact if_pos rfl

variable {R : Atlas → Atlas → Prop} {declaration : Declaration} {slot : Slot}
  (made : ∀ sort name type, R walk.atlas (walk.declare lookup sort name type).2.atlas)

include made

/-- A survey of a declaration comes to the node of its slot, and documents it. -/
theorem survey_documented
    (added : ∀ type, R walk.atlas (walk.addType lookup none type).2.atlas)
    (documents : declaration.documented? package = some slot) :
    ∃ (between : Walk) (id : NodeId), R walk.atlas between.atlas ∧
      between.atlas.target? slot = some id ∧
      survey lookup package walk declaration = between.attachDoc lookup id declaration.pos := by
  rcases Declaration.documented?_cases documents with
    ⟨type, declared, rfl⟩ | ⟨signature, declared, function, rfl⟩
  · exact ⟨_, _, added type, Walk.findType?_addType lookup type walk,
      survey_type lookup package walk declared⟩
  · rw [survey_func lookup package walk declared, if_neg (Bool.eq_false_iff.1 function)]
    exact ⟨_, _, made _ _ _, target?_declare_self lookup package walk _ _ _, rfl⟩

theorem survey_undocumented (same : R walk.atlas walk.atlas)
    (undocumented : declaration.documented? package = none) :
    R walk.atlas (survey lookup package walk declaration).atlas := by
  rw [Declaration.documented?] at undocumented
  cases declared : declaration.declared with
  | type type =>
    rw [declared] at undocumented
    cases undocumented
  | func signature =>
    rw [declared] at undocumented
    dsimp only at undocumented
    split at undocumented
    · next method =>
      rwa [survey_func lookup package walk declared, if_pos method]
    · cases undocumented
  | var type =>
    rw [survey_var lookup package walk declared]
    exact made .variable _ type
  | const type =>
    rw [survey_const lookup package walk declared]
    exact made .constant _ type

omit made

theorem annotates_survey (declaration : Declaration) :
    Atlas.Annotates (fun slot => declaration.documented? package = some slot) walk.atlas
      (survey lookup package walk declaration).atlas := by
  cases documents : declaration.documented? package with
  | none =>
    exact survey_undocumented lookup package walk (fun _ _ _ => .declare lookup _ _ _ walk)
      (.refl _ walk.atlas) documents
  | some slot =>
    obtain ⟨between, id, annotates, leads, eq⟩ := survey_documented lookup package walk
      (R := Atlas.Annotates fun other => some slot = some other)
      (fun _ _ _ => .declare lookup _ _ _ walk) (.addType lookup · walk) documents
    rw [eq]
    have documented : some slot = some slot := rfl
    exact annotates.trans (.attachDoc lookup leads documented declaration.pos)

theorem annotates_foldl (declarations : List Declaration) :
    Atlas.Annotates
      (fun slot => ∃ declaration ∈ declarations, declaration.documented? package = some slot)
      walk.atlas (declarations.foldl (survey lookup package) walk).atlas := by
  refine List.foldlRecOn (motive := fun after : Walk => Atlas.Annotates _ walk.atlas after.atlas)
    _ _ (.refl _ walk.atlas) fun between annotates declaration mem => annotates.trans ?_
  exact (annotates_survey lookup package between declaration).mono
    fun slot documents => ⟨declaration, mem, documents⟩

end Declarations

end Session

/-- A node that is documented has the comment right above the position. -/
theorem Walk.comments_attachDoc (lookup : Lookup) {walk : Walk} {id : NodeId} {node : Node}
    (hn : walk.atlas.node? id = some node) (pos : Position) :
    ∃ later, (walk.attachDoc lookup id (some pos)).atlas.node? id = some later ∧
      later.comments = lookup.comments.docLines (some pos) := by
  unfold attachDoc
  dsimp only
  rw [Atlas.node?_updateNode, if_pos rfl, hn]
  refine ⟨_, rfl, ?_⟩
  dsimp only
  unfold commentsAbove CommentIndex.docLines
  rw [Option.bind_some]
  cases lookup.comments.prior? pos 1 <;> rfl

namespace Atlas

/-- The slot leads to a node with the text as its comments, unless the node is a method or
one of the other slots leads to it. -/
def Shows (atlas : Atlas) (slot : Slot) (text : List String) (others : Slot → Prop) : Prop :=
  ∃ id node, atlas.target? slot = some id ∧ atlas.node? id = some node ∧
    (node.comments = text ∨
      ∃ other, (other.IsMethod ∨ others other) ∧ atlas.target? other = some id)

variable {before after atlas : Atlas} {slot : Slot} {text : List String}
  {documented others : Slot → Prop}

theorem Shows.later (h : before.Shows slot text documented)
    (annotates : Annotates documented before after) : after.Shows slot text documented := by
  obtain ⟨id, node, leads, hn, shows⟩ := h
  obtain ⟨later, hl, -⟩ := annotates.kept id node hn
  refine ⟨id, later, annotates.bound slot id leads, hl, ?_⟩
  rcases shows with text | ⟨other, written, leads⟩
  · rcases annotates.comments id node later hn hl with same | written
    · exact .inl (same.trans text)
    · exact .inr written
  · exact .inr ⟨other, written, annotates.bound other id leads⟩

theorem Shows.mono (h : atlas.Shows slot text documented)
    (more : ∀ slot, documented slot → others slot) : atlas.Shows slot text others := by
  obtain ⟨id, node, leads, hn, shows⟩ := h
  refine ⟨id, node, leads, hn, shows.imp_right ?_⟩
  rintro ⟨other, written, leads⟩
  exact ⟨other, written.imp_right (more other), leads⟩

end Atlas

namespace Session

/-- A declaration that is surveyed gives its node the comment above it. -/
theorem shows_survey (lookup : Lookup) (package : String) (walk : Walk)
    (consistent : walk.atlas.Consistent) {declaration : Declaration} {slot : Slot} {pos : Position}
    (documents : declaration.documented? package = some slot)
    (placed : declaration.pos = some pos) (others : Slot → Prop) :
    (survey lookup package walk declaration).atlas.Shows slot
      (lookup.comments.docLines (some pos)) others := by
  obtain ⟨between, id, annotates, leads, eq⟩ := survey_documented lookup package walk
    (R := Atlas.Annotates fun _ => False) (fun _ _ _ => .declare lookup _ _ _ walk)
    (.addType lookup · walk) documents
  obtain ⟨node, hn, -⟩ := (annotates.consistent consistent).described slot id leads
  obtain ⟨later, hl, comments⟩ := Walk.comments_attachDoc lookup hn pos
  rw [eq, placed]
  exact ⟨id, later, (Walk.target?_attachDoc ..).trans leads, hl, .inl comments⟩

/-! ## Packages -/

section Packages

variable {U : Type} (env : Environment U) (session : Session U)

/-- The declarations are all that a survey of a package documents. -/
theorem annotates_headed (documented : Slot → Prop) (atlas : Atlas) (package : String)
    (checked : Checked) :
    Atlas.Annotates documented atlas
      (atlas.updatePackage package (session.headed package checked)) := by
  have kept : ∀ record, (session.headed package checked record).path = record.path ∧
      (session.headed package checked record).imports = record.imports := by
    intro record
    rw [headed_eq]
    exact ⟨rfl, rfl⟩
  refine .of_same (Atlas.Extends.updatePackage (session.shelf_headed package checked)).lasts
    (fun start => start.updatePackage package (session.shelf_headed package checked)
      (fun record => (kept record).1) ?_) fun id node later hn hl => ?_
  · rw [(kept _).2]
    exact start.toRecorded.imported_package package
  · cases hn.symm.trans hl
    rfl

theorem annotates_addImports (documented : Slot → Prop) (atlas : Atlas) (package : String)
    (imports : List String) :
    Atlas.Annotates documented atlas (atlas.addImports package imports) := by
  refine .of_same (Atlas.Extends.addImports atlas package imports).lasts
    (fun start => start.addImports package imports) fun id node later hn hl => ?_
  rw [Atlas.node?_addImports, hn] at hl
  cases hl
  rfl

/-- After the survey of a package a declaration shows its comment, unless one that comes
after it leads to the same node. -/
theorem shows_surveyPackage {atlas : Atlas} (consistent : atlas.Consistent) {package : String}
    {checked : Checked} {before after : List Declaration} {declaration : Declaration}
    (sorted : checked.sorted = before ++ declaration :: after) {slot : Slot} {pos : Position}
    (documents : declaration.documented? package = some slot)
    (placed : declaration.pos = some pos) :
    (session.surveyPackage env atlas package checked).Shows slot
      (session.sources.comments.docLines (some pos))
      fun other => ∃ later ∈ after, later.documented? package = some other := by
  rw [surveyPackage_eq, surveyInOrder, sorted, List.foldl_append, List.foldl_cons]
  have start := (annotates_headed session (fun _ => False) atlas package checked).consistent
    consistent
  have reached := (annotates_foldl (session.lookup env) package
    { atlas := atlas.updatePackage package (session.headed package checked) } before).consistent
    start
  have shows := shows_survey (session.lookup env) package _ reached documents placed
    fun other => ∃ later ∈ after, later.documented? package = some other
  exact (shows.later (annotates_foldl (session.lookup env) package _ after)).later
    (annotates_addImports _ _ package _)

/-- Some declaration of the packages documents the slot. -/
def DocumentedIn (packages : List String) (slot : Slot) : Prop :=
  ∃ package ∈ packages, ∃ checked, session.checked? package = some checked ∧
    ∃ declaration ∈ checked.declarations, declaration.documented? package = some slot

theorem annotates_packages (packages : List String) (atlas : Atlas) :
    Atlas.Annotates (session.DocumentedIn packages) atlas
      (packages.foldl (session.surveyOne env) atlas) := by
  refine foldl_surveyOne env session (.refl _ atlas)
    (fun _ _ _ annotates => annotates.trans (annotates_headed session ..)) ?_
    (fun _ _ _ annotates => annotates.trans (annotates_addImports ..))
  intro package mem checked known declaration listed walk annotates
  refine annotates.trans ?_
  refine (annotates_survey _ package walk declaration).mono fun slot documents => ?_
  exact ⟨package, mem, checked, known, declaration, listed, documents⟩

end Packages

section Atlases

variable {U : Type} {env : Environment U} {session : Session U} {atlas : Atlas}

/-- An atlas is consistent. -/
theorem Accounted.consistent_atlas (h : session.Accounted) (made : session.atlas env = .ok atlas) :
    atlas.Consistent := by
  rw [h.atlas_eq] at made
  cases made
  exact (annotates_packages env session _ {}).consistent Atlas.consistent_empty

/-- In an atlas a declaration shows its comment, unless a declaration that is surveyed
after it leads to the same node. -/
theorem Accounted.shows_atlas (h : session.Accounted) (made : session.atlas env = .ok atlas)
    {package : String} (requested : session.requested.contains package = true) {checked : Checked}
    (known : session.checked? package = some checked) {before after : List Declaration}
    {declaration : Declaration} (sorted : checked.sorted = before ++ declaration :: after)
    {slot : Slot} {pos : Position} (documents : declaration.documented? package = some slot)
    (placed : declaration.pos = some pos) :
    atlas.Shows slot (session.sources.comments.docLines (some pos)) fun other =>
      (∃ later ∈ after, later.documented? package = some other) ∨
        ∃ path, package < path ∧ session.requested.contains path = true ∧
          session.DocumentedIn [path] other := by
  rw [h.atlas_eq] at made
  cases made
  have increasing : session.requestedPackages.Pairwise (· < ·) :=
    (Table.keys_increasing session.sources.files).filter _
  have rests : ∀ path ∈ session.requestedPackages, session.requested.contains path = true :=
    fun path => h.mem_requestedPackages.1
  obtain ⟨earlier, later, split⟩ := List.append_of_mem (h.mem_requestedPackages.2 requested)
  rw [split] at increasing rests ⊢
  rw [List.foldl_append, List.foldl_cons]
  have start := (annotates_packages env session earlier {}).consistent Atlas.consistent_empty
  have turn : session.surveyOne env (earlier.foldl (session.surveyOne env) {}) package =
      session.surveyPackage env (earlier.foldl (session.surveyOne env) {}) package checked := by
    rw [surveyOne, known]
  rw [turn]
  have shows := shows_surveyPackage env session start sorted documents placed
  refine (shows.mono fun other => .inl).later ((annotates_packages env session later _).mono ?_)
  rintro other ⟨path, mem, documents⟩
  have after_package := (List.pairwise_append.1 increasing).2.1
  refine .inr ⟨path, (List.pairwise_cons.1 after_package).1 path mem, ?_,
    path, List.mem_cons_self, documents⟩
  exact rests path (List.mem_append_right _ (List.mem_cons_of_mem _ mem))

end Atlases

end Session

/-! ## Types and functions -/

/-- In name order types that come later have later names. -/
theorem Checked.lt_of_sorted {checked : Checked}
    (nodup : (checked.declarations.filterMap Declaration.typeName?).Nodup)
    {before after : List Declaration} {declaration later : Declaration}
    (sorted : checked.sorted = before ++ declaration :: after) (mem : later ∈ after)
    (type : declaration.typeName? = some declaration.name)
    (type' : later.typeName? = some later.name) : declaration.name < later.name := by
  have order : checked.sorted.Pairwise fun a b => a.name ≤ b.name := by
    have sorted := List.pairwise_mergeSort (Table.byName_trans Declaration.name)
      (Table.byName_total Declaration.name) checked.declarations
    exact sorted.imp of_decide_eq_true
  have perm : checked.sorted.Perm checked.declarations := List.mergeSort_perm _ _
  have nodup : (checked.sorted.filterMap Declaration.typeName?).Nodup :=
    ((perm.filterMap _).nodup_iff).2 nodup
  rw [sorted] at order nodup
  have le := (List.pairwise_cons.1 (List.pairwise_append.1 order).2.1).1 later mem
  rw [List.filterMap_append, List.filterMap_cons_some type] at nodup
  have new := (List.nodup_cons.1 (List.nodup_append.1 nodup).2.1).1
  have ne : later.name ≠ declaration.name := by
    intro same
    exact new (List.mem_filterMap.2 ⟨later, mem, same ▸ type'⟩)
  exact Table.lt_of_not_lt_of_ne (String.not_lt.2 le) ne

/-- The tree declares a function of that name. -/
def NamedTree.declaresFunction (tree : NamedTree) (name : String) : Bool :=
  match tree.declaration with
  | .func none _ => tree.name == name
  | _ => false

/-- The places where the files declare functions of a name. -/
def Check.functionPlaces (files : List (SourceFile SourceTree)) (name : String) : List Position :=
  files.flatMap fun file =>
    (file.unit.declarations.filter (·.declaresFunction name)).map fun tree =>
      { file := file.path, line := tree.line }

theorem Check.mem_functionPlaces {files : List (SourceFile SourceTree)}
    {file : SourceFile SourceTree} (mem : file ∈ files) {name : String} {line : Nat}
    {signature : SignatureTree}
    (declared : ⟨name, line, .func none signature⟩ ∈ file.unit.declarations) :
    { file := file.path, line } ∈ functionPlaces files name := by
  refine List.mem_flatMap.2 ⟨file, mem, List.mem_map.2 ⟨_, List.mem_filter.2 ⟨declared, ?_⟩, rfl⟩⟩
  exact beq_self_eq_true name

/-- Of the members with a property there is a last one. -/
theorem exists_last {α : Type} {p : α → Prop} {list : List α} (some_ : ∃ a ∈ list, p a) :
    ∃ before a after, list = before ++ a :: after ∧ p a ∧ ∀ b ∈ after, ¬ p b := by
  induction list with
  | nil =>
    obtain ⟨a, mem, -⟩ := some_
    cases mem
  | cons first rest ih =>
    by_cases later : ∃ a ∈ rest, p a
    · obtain ⟨before, a, after, rfl, here, last⟩ := ih later
      exact ⟨first :: before, a, after, rfl, here, last⟩
    · obtain ⟨a, mem, here⟩ := some_
      rcases List.mem_cons.1 mem with rfl | mem
      · exact ⟨[], a, rest, rfl, here, fun b mem holds => later ⟨b, mem, holds⟩⟩
      · exact absurd ⟨a, mem, here⟩ later

namespace Session

variable {env : Environment SourceTree} {session : Session SourceTree} {atlas : Atlas}
  {package : String} {checked : Checked} {files : List (SourceFile SourceTree)}
  {file : SourceFile SourceTree} {name : String} {line : Nat}

/-- A type declaration that is surveyed after the one of the given package and name leads
to the node. -/
def RedocumentedAfter (session : Session SourceTree) (atlas : Atlas) (package name : String)
    (id : NodeId) : Prop :=
  ∃ path checked declaration type, session.requested.contains path = true ∧
    session.checked? path = some checked ∧ declaration ∈ checked.declarations ∧
    declaration.declared = .type type ∧
    (package < path ∨ path = package ∧ name < declaration.name) ∧
    atlas.findType? type.canonicalName = some id

section

variable (h : session.Accounted) (made : session.atlas env = .ok atlas)
  (requested : session.requested.contains package = true)
  (known : session.checked? package = some checked) (lists : Check.Lists package files checked)
  (mem : file ∈ files)

include h made requested known lists mem

/-- A type shows its comment, unless a method or a later declaration shares its node. -/
theorem Accounted.type_documented {tree : TypeTree}
    (declared : ⟨name, line, .type tree false⟩ ∈ file.unit.declarations) :
    ∃ id node, atlas.findType? { package, name } = some id ∧ atlas.node? id = some node ∧
      ('.' ∉ name.toList → ¬ session.RedocumentedAfter atlas package name id →
        node.comments =
          session.sources.comments.docLines (some { file := file.path, line })) := by
  have listed := (checked.mem_sorted _).2 (lists.types file mem name line tree declared)
  obtain ⟨before, after, sorted⟩ := List.append_of_mem listed
  obtain ⟨id, node, leads, hn, shows⟩ := h.shows_atlas made requested known sorted rfl rfl
  refine ⟨id, node, leads, hn, fun plain alone => ?_⟩
  rcases shows with text | ⟨other, written, leads'⟩
  · exact text
  · exfalso
    have same := (h.consistent_atlas made).apart _ other id leads leads'
    have shelf : other.shelf = .type := by
      rw [← other.shelf_canonical, ← same, Slot.shelf_canonical]
      rfl
    rcases written with method | ⟨later, mem, documents⟩ | ⟨path, lt, requested, documents⟩
    · exact plain (method.dot_mem same)
    · rcases Declaration.documented?_cases documents with ⟨type, declares, rfl⟩ | ⟨_, _, _, rfl⟩
      · refine alone ⟨package, checked, later, type, requested, known, ?_, declares, .inr ⟨rfl, ?_⟩,
          leads'⟩
        · rw [← checked.mem_sorted, sorted]
          exact List.mem_append_right _ (List.mem_cons_of_mem _ mem)
        · have named : later.typeName? = some later.name := by
            rw [Declaration.typeName?, declares]
          exact Checked.lt_of_sorted lists.nodup sorted mem rfl named
      · cases shelf
    · obtain ⟨_, single, checked', known', later, mem, documents⟩ := documents
      cases List.mem_singleton.1 single
      rcases Declaration.documented?_cases documents with ⟨type, declares, rfl⟩ | ⟨_, _, _, rfl⟩
      · exact alone ⟨path, checked', later, type, requested, known', mem, declares, .inl lt, leads'⟩
      · cases shelf

/-- A function shows its comment. -/
theorem Accounted.function_documented {signature : SignatureTree}
    (declared : ⟨name, line, .func none signature⟩ ∈ file.unit.declarations)
    (once : (Check.functionPlaces files name).length = 1) :
    ∃ id node, (atlas.package package).functions.get? name = some id ∧
      atlas.node? id = some node ∧
      node.comments = session.sources.comments.docLines (some { file := file.path, line }) := by
  obtain ⟨resolved, function, listed⟩ := lists.functions file mem name line signature declared
  have listed := (checked.mem_sorted _).2 listed
  have documents : Declaration.documented? package
      { name, pos := some { file := file.path, line }, declared := .func resolved } =
        some (Atlas.declarationSlot package .function name) := by
    show (if resolved.receiver.isSome = true then none else some _) = _
    rw [function]
    rfl
  -- of the declarations that document the slot the last one shows
  have documented : ∃ declaration ∈ checked.sorted, declaration.documented? package =
      some (Atlas.declarationSlot package .function name) := ⟨_, listed, documents⟩
  obtain ⟨before, last, after, sorted, documents, final⟩ := exists_last documented
  have place : last.pos = some { file := file.path, line } := by
    rcases Declaration.documented?_cases documents with
      ⟨_, _, other⟩ | ⟨written, declares, _, same⟩
    · cases other
    · cases same
      have mem' : last ∈ checked.declarations := by
        rw [← checked.mem_sorted, sorted]
        exact List.mem_append_right _ List.mem_cons_self
      obtain ⟨origin, there, line', tree, declared', place⟩ :=
        lists.origin last mem' written declares
      obtain ⟨only, single⟩ := List.length_eq_one_iff.1 once
      have here := Check.mem_functionPlaces mem declared
      have here' := Check.mem_functionPlaces there declared'
      rw [single, List.mem_singleton] at here here'
      rw [place, here', here]
  obtain ⟨id, node, leads, hn, shows⟩ := h.shows_atlas made requested known sorted documents place
  refine ⟨id, node, ?_, hn, ?_⟩
  · rw [← Atlas.get?_shelf_package] at leads
    exact leads
  · rcases shows with text | ⟨other, written, leads'⟩
    · exact text
    · exfalso
      have apart := (h.consistent_atlas made).apart other _ id leads' leads
      have same : other = Atlas.declarationSlot package .function name :=
        Slot.eq_of_canonical rfl apart
      subst same
      rcases written with ⟨_, _, method⟩ | ⟨later, mem, documents⟩ | ⟨path, lt, _, documents⟩
      · cases method
      · exact final later mem documents
      · obtain ⟨_, single, _, _, later, _, documents⟩ := documents
        cases List.mem_singleton.1 single
        rcases Declaration.documented?_cases documents with ⟨_, _, other⟩ | ⟨_, _, _, same⟩
        · cases other
        · exact Table.ne_of_key_lt lt (congrArg Slot.package same)

end

/-- Over one tree, whatever is asked of a session: in the atlas every type that is declared
as itself has a node, and every function that is declared once. The function has the text
of the comment group that ends right above it, or nothing. So has the type, if it has no
dot in its name and no type declaration surveyed after it leads to its node: none of a
package with a later path, and none with a later name in its own package. -/
theorem atlas_documents_declarations (locator : Locator) (tree : FileTree) (config : Config)
    (requests : List Request) :
    let env : Environment SourceTree := { frontend := Source.frontend, locator, tree }
    let session := (start config).serve env requests
    ∃ atlas, session.atlas env = .ok atlas ∧
      ∀ package files imports, session.requested.contains package = true →
        files <+: session.sources.filesOf package →
        .check package (files.map fun file => file.path) imports ∈ session.calls →
        ∀ file ∈ files,
          (∀ name line type, ⟨name, line, .type type false⟩ ∈ file.unit.declarations →
            ∃ id node, atlas.findType? { package, name } = some id ∧ atlas.node? id = some node ∧
              ('.' ∉ name.toList → ¬ session.RedocumentedAfter atlas package name id →
                node.comments = file.textAbove line)) ∧
          ∀ name line signature, ⟨name, line, .func none signature⟩ ∈ file.unit.declarations →
            (Check.functionPlaces files name).length = 1 →
            ∃ id node, (atlas.package package).functions.get? name = some id ∧
              atlas.node? id = some node ∧ node.comments = file.textAbove line := by
  intro env session
  have accounted : session.Accounted :=
    (proceeds_serve (.refl (accounted_start config)) requests).accounted
  have grounded : Grounded Source.frontend session :=
    (lasting_grounded env).serve (grounded_start _ config) requests
  have commented : Commented env session :=
    (lasting_commented rfl).serve (commented_start env config) requests
  refine ⟨_, accounted.atlas_eq, fun package files imports requested before call => ?_⟩
  obtain ⟨checked, done, known⟩ := accounted.checked?_of_requested requested
  obtain ⟨files', imports', imported?, before', call', ok⟩ := grounded.answered package checked done
  have same : files = files' := by
    have length := congrArg List.length (accounted.files_unique call call')
    rw [List.length_map, List.length_map] at length
    rw [List.prefix_iff_eq_take.1 before, List.prefix_iff_eq_take.1 before', length]
  subst same
  have lists := Check.lists_of_package ok
  intro file mem
  have there := before.subset mem
  refine ⟨fun name line type declared => ?_, fun name line signature declared once => ?_⟩
  · rw [← commented.docLines there]
    exact accounted.type_documented accounted.atlas_eq requested known lists mem declared
  · rw [← commented.docLines there]
    exact accounted.function_documented accounted.atlas_eq requested known lists mem declared once

end Session

/-! ## A type with an alias -/

/-- The comments of a type. -/
def Atlas.typeComments? (atlas : Atlas) (name : Name) : Option (List String) :=
  (atlas.findType? name).bind fun id => (atlas.node? id).map fun node => node.comments

namespace Session

/-- A type and an alias of it, each with a comment. -/
def aliasedSource : Environment SourceTree :=
  topSource (({} : FileTree).put ⟨"/p/p.go"⟩ (.text ("package p\n\n" ++
    "// A is a number.\ntype A int\n\n// B is another name of A.\ntype B = A\n")))

def aliasedSession : Session SourceTree :=
  (start {}).serve aliasedSource [.command (.add "p")]

/-- The atlas of one package whose declarations are in name order needs no sorting. -/
theorem Accounted.atlas_of_ordered {U α : Type} {session : Session U} (h : session.Accounted)
    (env : Environment U) {package : String} (only : session.requestedPackages = [package])
    {f : Atlas → α} {value : α}
    (run : ((session.checked? package).map fun checked =>
      (decide (checked.declarations.Pairwise fun a b => decide (a.name ≤ b.name) = true),
        f (session.surveyInOrder env {} package checked checked.declarations))) =
      some (true, value)) :
    ∃ atlas, session.atlas env = .ok atlas ∧ f atlas = value := by
  obtain ⟨checked, known, shown⟩ := Option.map_eq_some_iff.1 run
  obtain ⟨ordered, shown⟩ := Prod.mk.inj shown
  refine ⟨_, ?_, shown⟩
  rw [h.atlas_eq, only, List.foldl_cons, List.foldl_nil, surveyOne, known]
  dsimp only
  rw [surveyPackage_eq, Checked.sorted, List.mergeSort_of_pairwise (of_decide_eq_true ordered)]

/-- The type is on line 4 and has a comment above it, and in the atlas it has the comment
of the alias. -/
theorem alias_replaces_documentation :
    (∃ file ∈ aliasedSession.sources.filesOf "p",
      file.unit.declarations.map (fun tree => (tree.name, tree.line)) = [("A", 4), ("B", 7)] ∧
        file.textAbove 4 = ["A is a number."]) ∧
      aliasedSession.requested.contains "p" = true ∧
      ∃ atlas, aliasedSession.atlas aliasedSource = .ok atlas ∧
        atlas.typeComments? { package := "p", name := "A" } = some ["B is another name of A."] := by
  have accounted : aliasedSession.Accounted :=
    (proceeds_serve (.refl (accounted_start {})) _).accounted
  have only : aliasedSession.requestedPackages = ["p"] := by decide +kernel
  refine ⟨?_, ?_, accounted.atlas_of_ordered aliasedSource only ?_⟩ <;> decide +kernel

end Session

end GoAtlas
