import GoAtlas.Proofs.Session.Lasting
import GoAtlas.Proofs.Session.ImportGraph
import GoAtlas.Proofs.Walk.Reserved

/-!
# What a survey enters

The packages that were asked for are surveyed one after the other, each declaration in
name order. A survey of one package writes its own record and the types that its
declarations lead to; of other records it writes the table of types only (`Surveys`).
Under each name a declaration is entered once, for the first declaration of that name
(`Declares`).
-/

namespace GoAtlas

/-! ## Declarations -/

/-- The sort and the type a declaration is entered with. Types and methods are not entered. -/
def Declaration.entry? (declaration : Declaration) : Option (DeclarationSort × TypeExpr) :=
  match declaration.declared with
  | .type _ => none
  | .func signature => if signature.receiver.isSome then none else some (.function, .func signature)
  | .var type => some (.variable, type)
  | .const type => some (.constant, type)

/-- The type a declaration is entered with under a sort. -/
def Declaration.typeAs? (declaration : Declaration) (sort : DeclarationSort) : Option TypeExpr :=
  (declaration.entry?.filter fun entry => entry.1 == sort).map (·.2)

/-- The type of the first declaration of a sort and a name. -/
def firstDeclared? (declarations : List Declaration) (sort : DeclarationSort) (name : String) :
    Option TypeExpr :=
  (declarations.filter fun declaration => declaration.name == name).findSome?
    (·.typeAs? sort)

theorem firstDeclared?_concat (declarations : List Declaration) (last : Declaration)
    (sort : DeclarationSort) (name : String) :
    firstDeclared? (declarations ++ [last]) sort name =
      (firstDeclared? declarations sort name).or
        (if last.name = name then last.typeAs? sort else none) := by
  unfold firstDeclared?
  rw [List.filter_append, List.findSome?_append]
  by_cases here : last.name = name
  · simp [here]
  · simp [here]

theorem firstDeclared?_isSome (declarations : List Declaration) (sort : DeclarationSort)
    (name : String) :
    (firstDeclared? declarations sort name).isSome = true ↔
      ∃ declaration ∈ declarations, declaration.name = name ∧
        (declaration.typeAs? sort).isSome = true := by
  simp [firstDeclared?, and_assoc]

/-- Sorting keeps the declarations of one name in order. -/
theorem Checked.filter_sorted (checked : Checked) (name : String) :
    checked.sorted.filter (fun declaration => declaration.name == name) =
      checked.declarations.filter fun declaration => declaration.name == name := by
  unfold Checked.sorted
  generalize checked.declarations = declarations
  have equal : (declarations.filter fun declaration => declaration.name == name).Pairwise
      fun a b => decide (a.name ≤ b.name) = true := by
    apply List.pairwise_of_forall_mem_list
    intro a first b second
    have first := eq_of_beq (List.mem_filter.1 first).2
    have second := eq_of_beq (List.mem_filter.1 second).2
    rw [first, second]
    exact decide_eq_true (String.le_refl name)
  have sublist := (List.sublist_mergeSort (Table.byName_trans Declaration.name)
    (Table.byName_total Declaration.name) equal List.filter_sublist).filter
    fun declaration => declaration.name == name
  simp only [List.filter_filter, Bool.and_self] at sublist
  have perm := (List.mergeSort_perm declarations fun a b => decide (a.name ≤ b.name)).filter
    fun declaration => declaration.name == name
  exact (sublist.eq_of_length perm.length_eq.symm).symm

theorem Checked.mem_sorted (checked : Checked) (declaration : Declaration) :
    declaration ∈ checked.sorted ↔ declaration ∈ checked.declarations :=
  (List.mergeSort_perm _ _).mem_iff

theorem firstDeclared?_sorted (checked : Checked) (sort : DeclarationSort) (name : String) :
    firstDeclared? checked.sorted sort name = firstDeclared? checked.declarations sort name := by
  rw [firstDeclared?, firstDeclared?, checked.filter_sorted]

/-! ## Records and slots -/

/-- A record without its tables. -/
def Package.header (package : Package) : Package :=
  { package with types := ∅, functions := ∅, vars := ∅, consts := ∅ }

theorem Package.header_of_untyped {package other : Package}
    (h : package.untyped = other.untyped) : package.header = other.header := by
  show package.untyped.header = other.untyped.header
  rw [h]

theorem Package.header_enter (package : Package) (shelf : Shelf) (name : String) (id : NodeId) :
    (package.enter shelf name id).header = package.header := by
  cases shelf with
  | type => rfl
  | declaration sort => cases sort <;> rfl

namespace Atlas

variable {before between after atlas : Atlas} {package name : String} {sort : DeclarationSort}

/-- The slot of a declaration. -/
def declarationSlot (package : String) (sort : DeclarationSort) (name : String) : Slot :=
  ⟨package, name, .declaration sort⟩

/-- The declarations of a record lead where they led if only types were written. -/
theorem target?_of_untyped
    (h : (after.package package).untyped = (before.package package).untyped)
    (sort : DeclarationSort) (name : String) :
    after.target? (declarationSlot package sort name) =
      before.target? (declarationSlot package sort name) := by
  rw [← get?_shelf_package, ← get?_shelf_package]
  show ((after.package package).declarations sort).get? name =
    ((before.package package).declarations sort).get? name
  rw [Package.declarations_of_untyped h]

/-- The record of a path was passed over: of its tables only the types were written. -/
structure Passes (path : String) (before after : Atlas) : Prop extends Lasts before after where
  untyped : (after.package path).untyped = (before.package path).untyped
  recorded : before.packages.contains path = true → after.packages.contains path = true

theorem Passes.refl (path : String) (atlas : Atlas) : Passes path atlas atlas :=
  ⟨.refl atlas, rfl, id⟩

theorem Passes.trans {path : String} (h : Passes path before between)
    (h' : Passes path between after) : Passes path before after where
  toLasts := h.toLasts.trans h'.toLasts
  untyped := h'.untyped.trans h.untyped
  recorded there := h'.recorded (h.recorded there)

/-- A survey of the package may have led from the first atlas to the second. -/
structure Surveys (package : String) (before after : Atlas) : Prop extends Lasts before after where
  /-- Of the other records only types were written. -/
  others : ∀ path, path ≠ package → (after.package path).untyped = (before.package path).untyped
  recorded : ∀ path, before.packages.contains path = true → after.packages.contains path = true

namespace Surveys

theorem refl (package : String) (atlas : Atlas) : Surveys package atlas atlas :=
  ⟨.refl atlas, fun _ _ => rfl, fun _ there => there⟩

theorem trans (h : Surveys package before between) (h' : Surveys package between after) :
    Surveys package before after where
  toLasts := h.toLasts.trans h'.toLasts
  others path ne := (h'.others path ne).trans (h.others path ne)
  recorded path there := h'.recorded path (h.recorded path there)

theorem passes (h : Surveys package before after) {path : String} (ne : path ≠ package) :
    Passes path before after :=
  ⟨h.toLasts, h.others path ne, h.recorded path⟩

/-- The record of the package may be written besides its tables. -/
theorem updatePackage {f : Package → Package}
    (shelf : ∀ record, (f record).shelf = record.shelf) (atlas : Atlas) :
    Surveys package atlas (atlas.updatePackage package f) where
  toLasts := (Extends.updatePackage shelf).lasts
  others path ne := by rw [package_updatePackage, if_neg ne]
  recorded path there := (contains_updatePackage _ _ _ _).2 (.inr there)

end Surveys

/-- Declarations of the package may have led from the first atlas to the second. -/
structure Enters (package : String) (before after : Atlas) : Prop
    extends Surveys package before after where
  /-- Nothing but tables was written. -/
  header : ∀ path, (after.package path).header = (before.package path).header

namespace Enters

theorem refl (package : String) (atlas : Atlas) : Enters package atlas atlas :=
  ⟨.refl package atlas, fun _ => rfl⟩

theorem trans (h : Enters package before between) (h' : Enters package between after) :
    Enters package before after :=
  ⟨h.toSurveys.trans h'.toSurveys, fun path => (h'.header path).trans (h.header path)⟩

theorem of_reserves (h : before.Reserves after) (package : String) :
    Enters package before after where
  toLasts := h.toExtends.lasts
  others path _ := h.untyped path
  recorded := h.recorded
  header path := Package.header_of_untyped (h.untyped path)

/-- Records may be left alone. -/
theorem of_packages (lasts : before.Lasts after) (same : after.packages = before.packages)
    (package : String) : Enters package before after := by
  have records : ∀ path, after.package path = before.package path := by
    intro path
    rw [Atlas.package, Atlas.package, same]
  refine ⟨⟨lasts, fun path _ => ?_, fun path there => ?_⟩, fun path => ?_⟩
  · rw [records]
  · rwa [same]
  · rw [records]

theorem declarationNode (atlas : Atlas) (sort : DeclarationSort) (package name : String) :
    Enters package atlas (atlas.declarationNode sort { package, name }).2 := by
  have lasts := (Extends.declarationNode atlas sort { package, name }).lasts
  rw [declarationNode_eq] at lasts ⊢
  split
  · exact refl package atlas
  · next free =>
    rw [free] at lasts
    refine ⟨⟨lasts, fun path ne => ?_, fun path there => ?_⟩, fun path => ?_⟩
    · rw [addNode, Atlas.bind, package_updatePackage, if_neg ne]
      rfl
    · exact (contains_updatePackage _ _ _ _).2 (.inr there)
    · rw [addNode, Atlas.bind, package_updatePackage]
      split
      · next here =>
        rw [here, Package.header_enter]
        rfl
      · rfl

theorem declare (atlas : Atlas) (id underlying : NodeId) (package : String) :
    Enters package atlas (atlas.declare id underlying) := by
  refine of_packages (lasts_declare atlas id underlying) ?_ package
  unfold Atlas.declare
  split <;> rfl

theorem attachDoc (lookup : Lookup) (walk : Walk) (id : NodeId) (pos : Option Position)
    (package : String) : Enters package walk.atlas (walk.attachDoc lookup id pos).atlas := by
  refine of_packages (Visit.lasts lookup walk (.attachDoc id pos)) ?_ package
  show (walk.attachDoc lookup id pos).atlas.packages = walk.atlas.packages
  unfold Walk.attachDoc
  split <;> rfl

end Enters

end Atlas

/-! ## Declarations that are entered -/

namespace Atlas

variable {before after : Atlas} {slot : Slot}

/-- What a slot shows of the declaration that was entered there: nothing, or the node of
its type. -/
def Declares (atlas : Atlas) (slot : Slot) : Option TypeExpr → Prop
  | none => atlas.target? slot = none
  | some type => ∃ id node target, atlas.target? slot = some id ∧ atlas.node? id = some node ∧
      node.kind = .declaration (some target) ∧
      atlas.findType? type.canonicalName = some target

/-- A declaration that was entered lasts. A slot without one has to be left alone. -/
theorem Declares.later {type? : Option TypeExpr} (h : before.Declares slot type?)
    (lasts : before.Lasts after) (same : after.target? slot = before.target? slot) :
    after.Declares slot type? := by
  cases type? with
  | none => exact same.trans h
  | some type =>
    obtain ⟨id, node, target, leads, hn, kind, found⟩ := h
    obtain ⟨later, hl, -, becomes⟩ := lasts.kept id node hn
    refine ⟨id, later, target, lasts.bound slot id leads, hl, ?_,
      lasts.bound type.canonicalName.slot target found⟩
    rw [kind] at becomes
    generalize later.kind = kind at becomes
    cases becomes
    rfl

theorem target?_declare (atlas : Atlas) (id underlying : NodeId) (slot : Slot) :
    (atlas.declare id underlying).target? slot = atlas.target? slot := by
  unfold declare
  split <;> rfl

end Atlas

namespace Walk

variable (lookup : Lookup) (walk : Walk) {sort other : DeclarationSort}
  {package name path called : String}

theorem target?_attachDoc (id : NodeId) (pos : Option Position) (slot : Slot) :
    (walk.attachDoc lookup id pos).atlas.target? slot = walk.atlas.target? slot := by
  unfold attachDoc
  split <;> rfl

/-- A type that is walked enters no declaration. -/
theorem target?_addType (useName : Option Name) (type : TypeExpr) (path : String)
    (sort : DeclarationSort) (called : String) :
    (walk.addType lookup useName type).2.atlas.target? (Atlas.declarationSlot path sort called) =
      walk.atlas.target? (Atlas.declarationSlot path sort called) :=
  Atlas.target?_of_untyped ((carries_reserves.addType lookup useName type walk).untyped path)
    sort called

/-- A declaration is entered in its own slot. -/
theorem target?_declare_of_ne
    (ne : Atlas.declarationSlot path other called ≠ Atlas.declarationSlot package sort name)
    (type : TypeExpr) :
    (walk.declare lookup sort { package, name } type).2.atlas.target?
        (Atlas.declarationSlot path other called) =
      walk.atlas.target? (Atlas.declarationSlot path other called) := by
  unfold Walk.declare
  dsimp only
  rw [Atlas.target?_declare, target?_addType, Atlas.declarationNode_eq]
  split
  · rfl
  · rw [Atlas.target?_addNode]
    exact if_neg ne

/-- A declaration that is made shows its type, unless one was there before. -/
theorem declares_declare {type? : Option TypeExpr}
    (h : walk.atlas.Declares (Atlas.declarationSlot package sort name) type?) (type : TypeExpr) :
    (walk.declare lookup sort { package, name } type).2.atlas.Declares
      (Atlas.declarationSlot package sort name) (type?.or (some type)) := by
  cases type? with
  | some first =>
    have lasts := Visit.lasts lookup walk (.declare sort { package, name } type)
    obtain ⟨id, -, -, leads, -⟩ := id h
    exact h.later lasts ((lasts.bound _ id leads).trans leads.symm)
  | none =>
    -- the slot is free, so the declaration has a new node
    have free : walk.atlas.target? ⟨package, name, .declaration sort⟩ = none := h
    have made : walk.atlas.declarationNode sort { package, name } = (walk.atlas.nodeCount,
        walk.atlas.addNode (Atlas.declarationSlot package sort name)
          { name := { package, name }, kind := .declaration none }) := by
      rw [Atlas.declarationNode_eq, free]
      rfl
    unfold Walk.declare
    rw [made]
    dsimp only
    generalize entered : walk.atlas.addNode (Atlas.declarationSlot package sort name)
      { name := { package, name }, kind := .declaration none } = atlas
    have leads : atlas.target? (Atlas.declarationSlot package sort name) =
        some walk.atlas.nodeCount := by
      rw [← entered, Atlas.target?_addNode, if_pos rfl]
    have there : atlas.node? walk.atlas.nodeCount =
        some { name := { package, name }, kind := .declaration none } := by
      rw [← entered, Atlas.node?_addNode, if_pos rfl]
    have found := findType?_addType lookup type { walk with atlas }
    have onward := (carries_onward.addType lookup none type { walk with atlas }).atlas
    -- the walk over the type leaves it unfinished
    obtain ⟨later, hl, kept⟩ := onward.kept _ _ there
    have kind : later.kind = .declaration none := by
      have quiet := (kept.described rfl).1
      have plain : ¬ later.kind.isFunc = true := by
        rw [← Kind.isFunc_quiet, quiet]
        exact Bool.false_ne_true
      rwa [Kind.quiet_of_not_func plain] at quiet
    have undeclared : ({ walk with atlas }.addType lookup none type).2.atlas.isUndeclared
        walk.atlas.nodeCount = true := by
      rw [Atlas.isUndeclared, hl, Option.any_some, kind]
      rfl
    rw [Atlas.declare, if_pos undeclared]
    refine ⟨walk.atlas.nodeCount, { later with kind := .declaration (some _) }, _,
      onward.bound _ _ leads, ?_, rfl, found⟩
    rw [Atlas.node?_updateNode, if_pos rfl, hl]
    rfl

end Walk

namespace Session

variable (lookup : Lookup) (package : String) (walk : Walk)

theorem enters_declare (sort : DeclarationSort) (name : String) (type : TypeExpr) :
    Atlas.Enters package walk.atlas
      (walk.declare lookup sort { package, name } type).2.atlas :=
  ((Atlas.Enters.declarationNode walk.atlas sort package name).trans
    (.of_reserves (Walk.carries_reserves.addType lookup none type
      { walk with atlas := (walk.atlas.declarationNode sort { package, name }).2 }) package)).trans
    (.declare _ _ _ package)

section Cases

variable {declaration : Declaration}
variable {type : TypeExpr}

theorem survey_type (declared : declaration.declared = .type type) :
    survey lookup package walk declaration =
      (walk.addType lookup none type).2.attachDoc lookup (walk.addType lookup none type).1
        declaration.pos := by
  rw [survey, declared]

theorem survey_func {signature : SignatureExpr}
    (declared : declaration.declared = .func signature) :
    survey lookup package walk declaration =
      if signature.receiver.isSome then walk
      else
        (walk.declare lookup .function { package, name := declaration.name }
          (.func signature)).2.attachDoc lookup
            (walk.declare lookup .function { package, name := declaration.name }
              (.func signature)).1 declaration.pos := by
  rw [survey, declared]

theorem survey_var (declared : declaration.declared = .var type) :
    survey lookup package walk declaration =
      (walk.declare lookup .variable { package, name := declaration.name } type).2 := by
  rw [survey, declared]

theorem survey_const (declared : declaration.declared = .const type) :
    survey lookup package walk declaration =
      (walk.declare lookup .constant { package, name := declaration.name } type).2 := by
  rw [survey, declared]

end Cases

variable {declaration : Declaration}

/-- A declaration with an entry is made, and a function is documented. -/
theorem survey_entry {sort : DeclarationSort} {type : TypeExpr}
    (entry : declaration.entry? = some (sort, type)) :
    survey lookup package walk declaration =
      (walk.declare lookup sort { package, name := declaration.name } type).2.attachDoc lookup
        (walk.declare lookup sort { package, name := declaration.name } type).1
        (if sort = .function then declaration.pos else none) := by
  rw [Declaration.entry?] at entry
  cases declared : declaration.declared with
  | type _ =>
    rw [declared] at entry
    cases entry
  | func signature =>
    rw [declared] at entry
    dsimp only at entry
    split at entry
    · cases entry
    · next function =>
      cases entry
      rw [survey_func lookup package walk declared, if_neg function, if_pos rfl]
  | var _ =>
    rw [declared] at entry
    cases entry
    exact survey_var lookup package walk declared
  | const _ =>
    rw [declared] at entry
    cases entry
    exact survey_const lookup package walk declared

/-- A declaration without an entry is a type, which is walked and documented, or a method,
which is passed over. -/
theorem survey_unentered (unentered : declaration.entry? = none) :
    (∃ type, survey lookup package walk declaration =
      (walk.addType lookup none type).2.attachDoc lookup (walk.addType lookup none type).1
        declaration.pos) ∨
    survey lookup package walk declaration = walk := by
  rw [Declaration.entry?] at unentered
  cases declared : declaration.declared with
  | type type => exact .inl ⟨type, survey_type lookup package walk declared⟩
  | func signature =>
    rw [declared] at unentered
    dsimp only at unentered
    split at unentered
    · next method =>
      rw [survey_func lookup package walk declared, if_pos method]
      exact .inr rfl
    · cases unentered
  | var _ =>
    rw [declared] at unentered
    cases unentered
  | const _ =>
    rw [declared] at unentered
    cases unentered

theorem enters_survey (declaration : Declaration) :
    Atlas.Enters package walk.atlas (survey lookup package walk declaration).atlas := by
  cases entry : declaration.entry? with
  | some found =>
    rw [survey_entry lookup package walk entry]
    exact (enters_declare lookup package walk _ _ _).trans (.attachDoc lookup _ _ _ package)
  | none =>
    rcases survey_unentered lookup package walk entry with ⟨type, eq⟩ | eq
    · rw [eq]
      exact (Atlas.Enters.of_reserves (Walk.carries_reserves.addType lookup none type walk)
        package).trans (.attachDoc lookup _ _ _ package)
    · rw [eq]
      exact .refl package walk.atlas

/-- One more declaration is entered where it is the first of its name. -/
theorem declares_survey {seen : List Declaration}
    (h : ∀ sort name, walk.atlas.Declares (Atlas.declarationSlot package sort name)
      (firstDeclared? seen sort name)) (declaration : Declaration) (sort : DeclarationSort)
    (name : String) :
    (survey lookup package walk declaration).atlas.Declares
      (Atlas.declarationSlot package sort name)
      (firstDeclared? (seen ++ [declaration]) sort name) := by
  have lasts := (enters_survey lookup package walk declaration).toLasts
  rw [firstDeclared?_concat]
  cases entry : declaration.entry? with
  | none =>
    have nothing : declaration.typeAs? sort = none := by
      rw [Declaration.typeAs?, entry]
      rfl
    rw [nothing, ite_self, Option.or_none]
    refine (h sort name).later lasts ?_
    rcases survey_unentered lookup package walk entry with ⟨type, eq⟩ | eq
    · rw [eq, Walk.target?_attachDoc, Walk.target?_addType]
    · rw [eq]
  | some found =>
    obtain ⟨own, type⟩ := found
    have typeAs : declaration.typeAs? sort = if own = sort then some type else none := by
      rw [Declaration.typeAs?, entry]
      by_cases same : own = sort <;> simp [Option.filter, same]
    by_cases here : declaration.name = name ∧ own = sort
    · obtain ⟨rfl, rfl⟩ := here
      rw [typeAs, if_pos rfl, if_pos rfl]
      have made := Walk.declares_declare lookup walk (h own declaration.name) type
      have documented := (Atlas.Enters.attachDoc lookup
        (walk.declare lookup own { package, name := declaration.name } type).2
        (walk.declare lookup own { package, name := declaration.name } type).1
        (if own = .function then declaration.pos else none) package).toLasts
      rw [survey_entry lookup package walk entry]
      exact made.later documented (Walk.target?_attachDoc ..)
    · have other : (if declaration.name = name then declaration.typeAs? sort else none) = none := by
        rw [typeAs]
        split
        · next same => exact if_neg fun own => here ⟨same, own⟩
        · rfl
      rw [other, Option.or_none]
      refine (h sort name).later lasts ?_
      rw [survey_entry lookup package walk entry, Walk.target?_attachDoc,
        Walk.target?_declare_of_ne]
      intro same
      have same := Slot.mk.inj same
      exact here ⟨same.2.1.symm, (Shelf.declaration.inj same.2.2).symm⟩

/-- The declarations of a list are entered, and their types are walked. -/
theorem entered_foldl (declarations seen : List Declaration)
    (h : ∀ sort name, walk.atlas.Declares (Atlas.declarationSlot package sort name)
      (firstDeclared? seen sort name)) :
    Atlas.Enters package walk.atlas (declarations.foldl (survey lookup package) walk).atlas ∧
    (∀ sort name, (declarations.foldl (survey lookup package) walk).atlas.Declares
      (Atlas.declarationSlot package sort name)
      (firstDeclared? (seen ++ declarations) sort name)) ∧
    ∀ declaration ∈ declarations, ∀ type, declaration.declared = .type type →
      ∃ id, (declarations.foldl (survey lookup package) walk).atlas.findType? type.canonicalName =
        some id := by
  induction declarations generalizing walk seen with
  | nil =>
    rw [List.append_nil]
    exact ⟨.refl package walk.atlas, h, nofun⟩
  | cons first rest ih =>
    have step := enters_survey lookup package walk first
    obtain ⟨enters, declares, types⟩ := ih (survey lookup package walk first) (seen ++ [first])
      (declares_survey lookup package walk h first)
    rw [List.append_assoc, List.singleton_append] at declares
    refine ⟨step.trans enters, declares, fun declaration mem type declared => ?_⟩
    rcases List.mem_cons.1 mem with rfl | mem
    · have found : (survey lookup package walk declaration).atlas.findType? type.canonicalName =
          some (walk.addType lookup none type).1 := by
        rw [survey_type lookup package walk declared, Atlas.findType?_eq_target?,
          Walk.target?_attachDoc]
        exact Walk.findType?_addType lookup type walk
      exact ⟨_, enters.bound type.canonicalName.slot _ found⟩
    · exact types declaration mem type declared

end Session

/-! ## Records of surveyed packages -/

namespace SourceFile

variable {U : Type}

/-- The comments of the last `doc.go` among files. -/
def lastComments? (files : List (SourceFile U)) : Option (List String) :=
  (files.filter fun file => file.path.fileName? = some "doc.go").getLast?.map fun file =>
    file.comments.flatMap CommentGroup.textLines

/-- The comment of the package clause in the last `doc.go` that has one. -/
def lastDoc? (files : List (SourceFile U)) : Option (List String) :=
  ((files.filter fun file => file.path.fileName? = some "doc.go").filterMap
    SourceFile.doc).getLast?.map CommentGroup.textLines

theorem lastComments?_cons (file : SourceFile U) (rest : List (SourceFile U)) :
    lastComments? (file :: rest) = (lastComments? rest).or
      (if file.path.fileName? = some "doc.go" then
        some (file.comments.flatMap CommentGroup.textLines)
      else none) := by
  unfold lastComments?
  by_cases doc : file.path.fileName? = some "doc.go"
  · simp only [List.filter_cons, doc, decide_true, if_true, List.getLast?_cons]
    cases (rest.filter fun file => file.path.fileName? = some "doc.go").getLast? <;> rfl
  · simp [doc]

theorem lastDoc?_cons (file : SourceFile U) (rest : List (SourceFile U)) :
    lastDoc? (file :: rest) = (lastDoc? rest).or
      (if file.path.fileName? = some "doc.go" then file.doc.map CommentGroup.textLines
      else none) := by
  unfold lastDoc?
  by_cases doc : file.path.fileName? = some "doc.go"
  · simp only [List.filter_cons, doc, decide_true, if_true, List.filterMap_cons]
    cases file.doc with
    | none => simp
    | some group =>
      simp only [List.getLast?_cons, Option.map_some]
      cases ((rest.filter fun file => file.path.fileName? = some "doc.go").filterMap
        SourceFile.doc).getLast? <;> rfl
  · simp [doc]

end SourceFile

namespace Atlas

theorem package_addPackage (atlas : Atlas) (path other : String) :
    (atlas.addPackage path).package other = atlas.package other := by
  rw [addPackage, package_updatePackage]
  split
  · next here =>
    rw [here]
    rfl
  · rfl

/-- Imports are added to the record of one package. -/
theorem package_addImports (atlas : Atlas) (path : String) (imports : List String)
    (other : String) :
    (atlas.addImports path imports).package other =
      if other = path then { atlas.package path with
        imports := NameSet.addAll (atlas.package path).imports imports }
      else atlas.package other := by
  unfold addImports
  induction imports generalizing atlas with
  | nil =>
    split
    · next here =>
      rw [here]
      rfl
    · rfl
  | cons imported rest ih =>
    rw [List.foldl_cons, ih]
    simp only [addImport, package_updatePackage, package_addPackage]
    split
    · rfl
    · rfl

theorem target?_addImports (atlas : Atlas) (path : String) (imports : List String) (slot : Slot) :
    (atlas.addImports path imports).target? slot = atlas.target? slot := by
  unfold addImports
  induction imports generalizing atlas with
  | nil => rfl
  | cons imported rest ih =>
    have first : (atlas.addImport path imported).target? slot =
        (atlas.addPackage imported).target? slot := by
      apply target?_updatePackage
      intro _
      rfl
    have marked : (atlas.addPackage imported).target? slot = atlas.target? slot := by
      apply target?_updatePackage
      intro _
      rfl
    rw [List.foldl_cons, ih, first, marked]

theorem contains_addImports (atlas : Atlas) (path : String) (imports : List String)
    {other : String} (there : atlas.packages.contains other = true) :
    (atlas.addImports path imports).packages.contains other = true := by
  unfold addImports
  induction imports generalizing atlas with
  | nil => exact there
  | cons imported rest ih =>
    exact ih _ ((contains_updatePackage _ _ _ _).2 (.inr
      ((contains_updatePackage _ _ _ _).2 (.inr there))))

/-- Nothing is known of a package but types that others mentioned. -/
def Unsurveyed (atlas : Atlas) (package : String) : Prop :=
  (atlas.package package).untyped = (Package.marker package).untyped

theorem unsurveyed_empty (package : String) : Unsurveyed {} package := rfl

theorem Unsurveyed.target? {atlas : Atlas} {package : String} (h : atlas.Unsurveyed package)
    (sort : DeclarationSort) (name : String) :
    atlas.target? (declarationSlot package sort name) = none := by
  rw [← get?_shelf_package]
  show ((atlas.package package).declarations sort).get? name = none
  rw [Package.declarations_of_untyped h]
  cases sort <;> rfl

theorem Surveys.addImports (atlas : Atlas) (package : String) (imports : List String) :
    Surveys package atlas (atlas.addImports package imports) where
  toLasts := (Extends.addImports atlas package imports).lasts
  others path ne := by rw [package_addImports, if_neg ne]
  recorded _ there := contains_addImports atlas package imports there

end Atlas

namespace Session

variable {U : Type} {env : Environment U} {session : Session U} {package : String}
  {checked : Checked} {before after atlas : Atlas}

/-- The record of a package as its survey heads it. -/
def headed (session : Session U) (package : String) (checked : Checked) (record : Package) :
    Package :=
  (session.sources.filesOf package).foldl documented
    { record with name := checked.name, sourcePath := session.directories.get? package }

/-- A survey that goes over the declarations in a given order: it heads the record of the
package, comes to each declaration, and notes the imports. -/
def surveyInOrder (env : Environment U) (session : Session U) (atlas : Atlas) (package : String)
    (checked : Checked) (declarations : List Declaration) : Atlas :=
  let start : Walk := { atlas := atlas.updatePackage package (session.headed package checked) }
  (declarations.foldl (survey (session.lookup env) package) start).atlas.addImports package
    ((session.sources.importsOf package).map ImportPath.canonical)

theorem surveyPackage_eq (env : Environment U) (session : Session U) (atlas : Atlas)
    (package : String) (checked : Checked) :
    session.surveyPackage env atlas package checked =
      session.surveyInOrder env atlas package checked checked.sorted := rfl

/-- The record is documented by the last of the files, and the rest of it is left. -/
theorem documented_foldl (files : List (SourceFile U)) (record : Package) :
    files.foldl documented record =
      { record with
        comments := (SourceFile.lastComments? files).getD record.comments
        docComments := (SourceFile.lastDoc? files).getD record.docComments } := by
  induction files generalizing record with
  | nil => rfl
  | cons file rest ih =>
    rw [List.foldl_cons, ih, SourceFile.lastComments?_cons, SourceFile.lastDoc?_cons, documented]
    by_cases doc : file.path.fileName? = some "doc.go"
    · rw [if_pos doc, if_pos doc, if_pos doc]
      cases SourceFile.lastComments? rest <;> cases SourceFile.lastDoc? rest <;>
        cases file.doc <;> rfl
    · rw [if_neg doc, if_neg doc, if_neg doc, Option.or_none, Option.or_none]

theorem headed_eq (session : Session U) (package : String) (checked : Checked)
    (record : Package) :
    session.headed package checked record =
      { record with
        name := checked.name
        sourcePath := session.directories.get? package
        comments := (SourceFile.lastComments? (session.sources.filesOf package)).getD
          record.comments
        docComments := (SourceFile.lastDoc? (session.sources.filesOf package)).getD
          record.docComments } :=
  documented_foldl _ _

/-- A headed record has the tables that it had. -/
theorem shelf_headed (session : Session U) (package : String) (checked : Checked)
    (record : Package) : (session.headed package checked record).shelf = record.shelf := by
  rw [headed_eq]
  rfl

/-- The record of a package that was surveyed says what its check says. -/
structure Surveyed (session : Session U) (package : String) (checked : Checked) (atlas : Atlas) :
    Prop where
  recorded : atlas.packages.contains package = true
  name : (atlas.package package).name = checked.name
  imports : ∀ path, path ∈ NameSet.toList (atlas.package package).imports ↔
    ∃ literal ∈ session.sources.importsOf package, ImportPath.canonical literal = path
  comments : (atlas.package package).comments =
    (SourceFile.lastComments? (session.sources.filesOf package)).getD []
  docComments : (atlas.package package).docComments =
    (SourceFile.lastDoc? (session.sources.filesOf package)).getD []
  declares : ∀ sort name, atlas.Declares (Atlas.declarationSlot package sort name)
    (firstDeclared? checked.declarations sort name)
  types : ∀ declaration ∈ checked.declarations, ∀ type, declaration.declared = .type type →
    ∃ id, atlas.findType? type.canonicalName = some id

/-- The record stays as it is when other packages are surveyed. -/
theorem Surveyed.later (h : Surveyed session package checked before)
    (passes : Atlas.Passes package before after) : Surveyed session package checked after := by
  have header := Package.header_of_untyped passes.untyped
  refine ⟨passes.recorded h.recorded, ?_, fun path => ?_, ?_, ?_, fun sort name => ?_,
    fun declaration mem type declared => ?_⟩
  · show (after.package package).header.name = checked.name
    rw [header]
    exact h.name
  · rw [← h.imports path]
    show path ∈ NameSet.toList (after.package package).header.imports ↔ _
    rw [header]
    rfl
  · exact (congrArg Package.comments header).trans h.comments
  · exact (congrArg Package.docComments header).trans h.docComments
  · exact (h.declares sort name).later passes.toLasts
      (Atlas.target?_of_untyped passes.untyped sort name)
  · obtain ⟨id, found⟩ := h.types declaration mem type declared
    exact ⟨id, passes.bound type.canonicalName.slot id found⟩

/-- A package without a record of its own is surveyed. -/
theorem surveyed_surveyPackage (checked : Checked)
    (unknown : atlas.Unsurveyed package) :
    Atlas.Surveys package atlas (session.surveyPackage env atlas package checked) ∧
      Surveyed session package checked (session.surveyPackage env atlas package checked) := by
  rw [surveyPackage_eq, surveyInOrder]
  have started : Atlas.Surveys package atlas
      (atlas.updatePackage package (session.headed package checked)) :=
    .updatePackage (session.shelf_headed package checked) atlas
  have record := Atlas.package_updatePackage atlas package (session.headed package checked) package
  have there : (atlas.updatePackage package (session.headed package checked)).packages.contains
      package = true := (Atlas.contains_updatePackage _ _ _ _).2 (.inl rfl)
  -- no declaration of the package was entered before
  have nothing : ∀ sort name,
      (atlas.updatePackage package (session.headed package checked)).target?
        (Atlas.declarationSlot package sort name) = none := by
    intro sort name
    rw [Atlas.target?_updatePackage _ _ (session.shelf_headed package checked)]
    exact unknown.target? sort name
  rw [if_pos rfl, headed_eq] at record
  generalize atlas.updatePackage package (session.headed package checked) = headed
    at started record there nothing
  obtain ⟨enters, declares, types⟩ := entered_foldl (session.lookup env) package
    { atlas := headed } checked.sorted [] nothing
  generalize checked.sorted.foldl (survey (session.lookup env) package) { atlas := headed } = walk
    at enters declares types
  have imports := Atlas.Surveys.addImports walk.atlas package
    ((session.sources.importsOf package).map ImportPath.canonical)
  -- but for its tables, the record is the headed one until the imports are noted
  have header := (enters.header package).trans (congrArg Package.header record)
  refine ⟨(started.trans enters.toSurveys).trans imports, ?_, ?_, fun path => ?_, ?_, ?_,
    fun sort name => ?_, fun declaration mem type declared => ?_⟩
  · exact imports.recorded package (enters.recorded package there)
  · rw [Atlas.package_addImports, if_pos rfl]
    exact congrArg Package.name header
  · have none : (walk.atlas.package package).imports = ∅ :=
      (congrArg Package.imports header).trans (congrArg Package.imports unknown)
    rw [Atlas.package_addImports, if_pos rfl, NameSet.mem_toList_addAll, none, List.mem_map]
    constructor
    · rintro (there | absent)
      · exact there
      · cases absent
    · exact .inl
  · have blank : (atlas.package package).comments = [] := congrArg Package.comments unknown
    rw [Atlas.package_addImports, if_pos rfl, ← blank]
    exact congrArg Package.comments header
  · have blank : (atlas.package package).docComments = [] := congrArg Package.docComments unknown
    rw [Atlas.package_addImports, if_pos rfl, ← blank]
    exact congrArg Package.docComments header
  · have entered := (declares sort name).later imports.toLasts (Atlas.target?_addImports ..)
    rwa [List.nil_append, firstDeclared?_sorted] at entered
  · obtain ⟨id, found⟩ := types declaration ((checked.mem_sorted declaration).2 mem) type declared
    exact ⟨id, imports.bound type.canonicalName.slot id found⟩

end Session

end GoAtlas
