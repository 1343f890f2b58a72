import GoAtlas.Proofs.Check.Closed
import GoAtlas.Proofs.Session.Documented
import GoAtlas.Proofs.Walk.Supported

/-!
# Sessions without errors

As long as no check fails, the packages of a session refer only to each other: each was handed
to the checker once, when what it imports was there, and no result is ever replaced (`Linked`).
So where a session ends without errors its definitions cover all that its packages refer to
(`cover_definitions`), and nothing is unsupported in its atlas but primitives that are not
registered (`unsupported_unregistered`).
-/

namespace GoAtlas

/-! ## What a package may refer to -/

namespace Check

/-- What a type may refer to, with the primitives that there are: those of the language, and
the types of constants that are declared without one. -/
def Admitted (family : String → Option Checked) : TypeExpr → Prop
  | .basic name => name ∈ basicNames ∨ ∃ kind : Untyped, name = kind.text
  | type => Known family type

theorem Admitted.mono {family larger : String → Option Checked}
    (extends_ : ∀ path checked, family path = some checked → larger path = some checked)
    (type : TypeExpr) (h : Admitted family type) : Admitted larger type := by
  cases type with
  | basic name => exact h
  | named package name =>
    have known : Known family (.named package name) := h
    exact known.mono extends_
  | other description => exact h
  | _ => exact trivial

theorem every_errorDefinition (family : String → Option Checked) :
    errorDefinition.Every (Admitted family) where
  underlying := everyMethod_errorMethods (fun _ mem => .inl mem) (.inl ⟨rfl, rfl⟩)
  methods := List.forall_mem_nil _

/-- The primitives of the language that are not registered. -/
theorem unregistered_basicNames : ∀ name ∈ basicNames, Primitive.isRegistered name = false →
    name ∈ ["rune", "complex64", "complex128"] := by
  decide +kernel

end Check

/-- Where all definitions have a property, a definition that is there is found, or another one
of its name. -/
theorem Definitions.find?_of_mem {definitions : Definitions} {p : TypeExpr → Prop}
    (every : ∀ entry ∈ definitions.entries, entry.2.Every p) {package : String}
    {definition : Definition} (mem : (package, definition) ∈ definitions.entries) :
    ∃ found, definitions.find? package definition.name = some found ∧ found.Every p := by
  have there : (definitions.entries.find? fun entry =>
      entry.1 == package && entry.2.name == definition.name).isSome = true := by
    rw [List.find?_isSome]
    exact ⟨_, mem, by simp⟩
  obtain ⟨entry, found⟩ := Option.isSome_iff_exists.1 there
  refine ⟨entry.2, ?_, every entry (List.mem_of_find?_eq_some found)⟩
  rw [Definitions.find?, found]
  rfl

/-- The check ended without errors. -/
def CheckState.isDone : CheckState → Bool
  | .done _ => true
  | .inProgress | .incomplete _ _ | .failed _ => false

theorem CheckState.isDone_iff {state : CheckState} :
    state.isDone = true ↔ ∃ checked, state = .done checked := by
  cases state with
  | done checked => exact ⟨fun _ => ⟨checked, rfl⟩, fun _ => rfl⟩
  | _ =>
    constructor
    · intro done
      cases done
    · rintro ⟨checked, same⟩
      cases same

namespace Session

/-! ## Checks without errors -/

/-- Every package of the session has a path, and was checked without errors. -/
def Flawless {U : Type} (session : Session U) : Prop :=
  ∀ package state, session.checks.get? package = some state →
    package ≠ "" ∧ ∃ checked, state = .done checked

instance {U : Type} (session : Session U) : Decidable session.Flawless :=
  decidable_of_iff (∀ entry ∈ session.checks.entries, entry.1 ≠ "" ∧ entry.2.isDone = true) <| by
    simp only [Prod.forall, Table.mem_entries_iff, CheckState.isDone_iff, Flawless]

/-! ## References between packages -/

section Clean

variable {U : Type} {session : Session U} {package : String} {state : CheckState}

/-- Every package was handed to the checker once, and has no errors. -/
structure Clean (session : Session U) : Prop where
  once : session.checkOrder.Nodup
  done : ∀ package ∈ session.checkOrder,
    ∃ checked, session.checks.get? package = some (.done checked)

/-- The packages of a session without errors refer only to each other. What was resolved was
handed to the checker, so that it is not replaced as long as nothing is handed over twice. -/
structure Linked (session : Session U) : Prop where
  handed : ∀ package, (session.checked? package).isSome = true → package ∈ session.checkOrder
  every : session.Clean → ∀ package checked, session.checked? package = some checked →
    checked.Every (Check.Admitted session.checked?)

theorem linked_start (config : Config) : Linked (start config : Session U) where
  handed _ resolved := by cases resolved
  every _ _ _ known := by cases known

theorem Linked.of_same {after : Session U} (h : Linked session)
    (checks : after.checks = session.checks) (order : after.checkOrder = session.checkOrder) :
    Linked after := by
  have known : after.checked? = session.checked? := by
    funext package
    rw [checked?, checked?, checks]
  constructor
  · rw [known, order]
    exact h.handed
  · rintro ⟨once, done⟩
    rw [order] at once done
    rw [checks] at done
    rw [known]
    exact h.every ⟨once, done⟩

/-- Nothing is known of a package that was not handed to the checker, so giving it a state
leaves the other packages as they were. -/
theorem Linked.before (h : Linked session) (new : package ∉ session.checkOrder)
    (once : session.checkOrder.Nodup)
    (done : ∀ other ∈ session.checkOrder,
      ∃ checked, (session.setCheck package state).checks.get? other = some (.done checked)) :
    session.checked? package = none ∧ ∀ other checked, session.checked? other = some checked →
      checked.Every (Check.Admitted session.checked?) := by
  constructor
  · refine Option.not_isSome_iff_eq_none.1 fun resolved => ?_
    exact new (h.handed package resolved)
  · refine h.every ⟨once, fun other mem => ?_⟩
    have ne : other ≠ package := fun same => new (same ▸ mem)
    obtain ⟨checked, there⟩ := done other mem
    rw [setCheck, Table.get?_insert_of_ne _ _ ne] at there
    exact ⟨checked, there⟩

/-- A check may be started or given up. -/
theorem Linked.undecided (h : Linked session) (unresolved : state.checked? = none) :
    Linked (session.setCheck package state) := by
  constructor
  · intro other resolved
    rw [checked?_setCheck, unresolved] at resolved
    split at resolved
    · cases resolved
    · exact h.handed other resolved
  · rintro ⟨once, done⟩
    have new : package ∉ session.checkOrder := by
      intro mem
      obtain ⟨checked, there⟩ := done package mem
      rw [setCheck, Table.get?_insert_self] at there
      cases there
      cases unresolved
    obtain ⟨unknown, every⟩ := h.before new once done
    have known : (session.setCheck package state).checked? = session.checked? := by
      funext other
      rw [checked?_setCheck, unresolved]
      split
      · next same => rw [same, unknown]
      · rfl
    rw [known]
    exact every

end Clean

section Checks

variable {session : Session SourceTree} {package : String}

/-- A package may be checked: it refers to what it defines itself and to what was known before. -/
theorem Linked.conclude (h : Linked session) {files : List (SourceFile SourceTree)}
    {paths : List FilePath} {imports : List (String × Option String)} (found : Table String) :
    Linked ((session.record (.check package paths imports)).setCheck package
      (.ofAnswer (Check.package package files (session.imported? found)))) := by
  generalize answers : Check.package package files (session.imported? found) = answer
  constructor
  · intro other resolved
    rw [checkOrder_check]
    by_cases same : other = package
    · exact List.mem_append_right _ (List.mem_singleton.2 same)
    · rw [checked?_setCheck, if_neg same] at resolved
      exact List.mem_append_left _ (h.handed other resolved)
  · rintro ⟨once, done⟩
    rw [checkOrder_check] at once done
    obtain ⟨once, -, apart⟩ := List.nodup_append.1 once
    have new : package ∉ session.checkOrder :=
      fun mem => apart package mem package (List.mem_singleton_self _) rfl
    obtain ⟨unknown, every⟩ := h.before new once
      fun other mem => done other (List.mem_append_left _ mem)
    obtain ⟨checked, there⟩ := done package (List.mem_append_right _ (List.mem_singleton_self _))
    rw [Session.setCheck, Table.get?_insert_self] at there
    obtain rfl := CheckState.eq_ok_of_ofAnswer (Option.some.inj there)
    generalize after : ((session.record (.check package paths imports)).setCheck package
      (.ofAnswer (.ok checked))).checked? = family
    have self : family package = some checked := by
      rw [← after, checked?_setCheck, if_pos rfl]
      rfl
    have extends_ : ∀ other known, session.checked? other = some known →
        family other = some known := by
      intro other known there
      rw [← after, checked?_setCheck, if_neg]
      · exact there
      · rintro rfl
        rw [unknown] at there
        cases there
    have earlier : ∀ other known, session.checked? other = some known →
        known.Every (Check.Admitted family) :=
      fun other known there => (every other known there).mono (Check.Admitted.mono extends_)
    intro other known there
    rw [← after, checked?_setCheck] at there
    split at there
    · cases there
      refine Check.every_of_package answers (fun _ mem => .inl mem) (fun kind => .inr ⟨kind, rfl⟩)
        (.inl ⟨rfl, rfl⟩) (fun name defined => .inr ⟨checked, self, defined⟩) ?_
      intro literal given imported
      obtain ⟨target, -, resolved⟩ := Option.bind_eq_some_iff.1 imported
      exact earlier target given resolved
    · exact earlier other known there

theorem lasting_linked {env : Environment SourceTree} (front : env.frontend = Source.frontend) :
    Lasting env Linked where
  remember _ _ _ h _ := h.of_same rfl rfl
  settle _ _ _ h _ := h.of_same rfl rfl
  record _ _ h := h.of_same rfl (checkOrder_record_parse ..)
  addFile _ _ _ h _ := h.of_same rfl rfl
  undecided _ _ _ h unresolved := h.undecided unresolved
  conclude _ _ found _ h := by
    rw [front]
    exact h.conclude found
  request _ _ h := h.of_same rfl rfl
  addTags _ _ h := h.of_same rfl rfl

/-- Whatever is asked of a session, over whatever tree, it stays linked. -/
theorem linked_serveOver (h : Linked session) (locator : Locator)
    (asked : List (FileTree × Request)) :
    Linked (session.serveOver Source.frontend locator asked) :=
  keeps_serveOver (fun _ _ => (lasting_linked rfl).toOutlasts) h

end Checks

/-! ## Definitions -/

section Definitions

/-- The definitions of a session are the predeclared ones and those of what was resolved. -/
theorem mem_definitions {U : Type} {env : Environment U} {session : Session U} {package : String}
    {definition : Definition} : (package, definition) ∈ (session.definitions env).entries ↔
      package = "" ∧ definition ∈ env.frontend.predeclared ∨
      package ≠ "" ∧ ∃ checked, session.checked? package = some checked ∧
        ∃ name, checked.definitions.get? name = some definition := by
  rw [definitions, List.mem_append]
  refine or_congr ?_ ?_
  · simp only [List.mem_map, List.mem_reverse, Prod.mk.injEq]
    constructor
    · rintro ⟨found, mem, rfl, rfl⟩
      exact ⟨rfl, mem⟩
    · rintro ⟨rfl, mem⟩
      exact ⟨definition, mem, rfl, rfl⟩
  · rw [List.mem_flatMap]
    constructor
    · rintro ⟨⟨path, state⟩, mem, inside⟩
      have there := (Table.mem_entries_iff ..).1 mem
      dsimp only at inside
      split at inside
      · cases inside
      · next full =>
        obtain ⟨found, inside, same⟩ := List.mem_map.1 inside
        cases same
        cases resolved : state.checked? with
        | none =>
          rw [resolved] at inside
          cases inside
        | some checked =>
          rw [resolved] at inside
          refine ⟨fun empty => full (String.isEmpty_iff.2 empty), checked, ?_,
            (Table.mem_values_iff ..).1 inside⟩
          rw [checked?, there]
          exact resolved
    · rintro ⟨full, checked, known, name, there⟩
      obtain ⟨state, found, resolved⟩ := Option.bind_eq_some_iff.1 known
      refine ⟨(package, state), (Table.mem_entries_iff ..).2 found, ?_⟩
      dsimp only
      rw [if_neg fun empty => full (String.isEmpty_iff.1 empty), resolved]
      exact List.mem_map.2 ⟨definition, (Table.mem_values_iff ..).2 ⟨name, there⟩, rfl⟩

variable {env : Environment SourceTree} {session : Session SourceTree}

/-- The definitions of a session without errors cover all that its packages refer to. -/
theorem cover_definitions (front : env.frontend = Source.frontend)
    (grounded : Grounded Source.frontend session) (flawless : session.Flawless)
    (every : ∀ package checked, session.checked? package = some checked →
      checked.Every (Check.Admitted session.checked?)) :
    (session.definitions env).Cover (Check.Admitted session.checked?) := by
  have all : ∀ entry ∈ (session.definitions env).entries,
      entry.2.Every (Check.Admitted session.checked?) := by
    rintro ⟨package, definition⟩ mem
    rcases mem_definitions.1 mem with ⟨-, mem⟩ | ⟨-, checked, known, name, there⟩
    · rw [front] at mem
      rw [List.mem_singleton.1 mem]
      exact Check.every_errorDefinition _
    · exact (every package checked known).definitions name definition there
  refine ⟨fun _ => id, fun package name admitted => ?_⟩
  rcases admitted with ⟨rfl, rfl⟩ | ⟨checked, known, defined⟩
  · have mem : ("", Check.errorDefinition) ∈ (session.definitions env).entries := by
      refine mem_definitions.2 (.inl ⟨rfl, ?_⟩)
      rw [front]
      exact List.mem_singleton_self _
    exact Definitions.find?_of_mem all mem
  · obtain ⟨definition, there⟩ := (Table.contains_iff _ _).1 defined
    obtain ⟨state, found, resolved⟩ := Option.bind_eq_some_iff.1 known
    obtain ⟨full, result, rfl⟩ := flawless package state found
    cases resolved
    obtain ⟨files, -, imported?, -, -, ok⟩ := grounded.answered package checked found
    obtain rfl := Check.name_of_package ok there
    exact Definitions.find?_of_mem all
      (mem_definitions.2 (.inr ⟨full, checked, known, definition.name, there⟩))

end Definitions

/-! ## Surveys -/

section Surveys

variable {p : TypeExpr → Prop} {U : Type} {env : Environment U} {session : Session U}
  {package : String}

theorem supported_survey {lookup : Lookup} (cover : lookup.definitions.Cover p) {walk : Walk}
    (h : walk.atlas.Supported p) {declaration : Declaration}
    (every : declaration.declared.Every p) :
    (survey lookup package walk declaration).atlas.Supported p := by
  cases declared : declaration.declared with
  | type type =>
    rw [declared] at every
    rw [survey_type lookup package walk declared]
    exact Walk.supported_attachDoc lookup (Walk.supported_addType cover none every h) _ _
  | func signature =>
    rw [declared] at every
    have every : (TypeExpr.func signature).Every p := every
    rw [survey_func lookup package walk declared]
    split
    · exact h
    · exact Walk.supported_attachDoc lookup (Walk.supported_declare cover _ _ every h) _ _
  | var type =>
    rw [declared] at every
    rw [survey_var lookup package walk declared]
    exact Walk.supported_declare cover _ _ every h
  | const type =>
    rw [declared] at every
    rw [survey_const lookup package walk declared]
    exact Walk.supported_declare cover _ _ every h

theorem supported_surveys (cover : (session.definitions env).Cover p)
    (every : ∀ package checked, session.checked? package = some checked → checked.Every p)
    (packages : List String) {atlas : Atlas} (h : atlas.Supported p) :
    (packages.foldl (session.surveyOne env) atlas).Supported p := by
  refine foldl_surveyOne env session h (fun atlas package checked h => ?_) ?_
    (fun atlas package paths h => ?_)
  · have headed := annotates_headed session (fun _ => False) atlas package checked
    exact h.of_nodes (headed.consistent h.toConsistent) fun _ _ => .inl
  · intro package mem checked known declaration listed walk h
    have cover : (session.lookup env).definitions.Cover p := cover
    exact supported_survey cover h ((every package checked known).declarations declaration listed)
  · refine h.of_nodes (h.toConsistent.addImports package paths) fun id node hn => .inl ?_
    rwa [Atlas.node?_addImports] at hn

end Surveys

theorem Accounted.clean {U : Type} {session : Session U} (h : session.Accounted)
    (flawless : session.Flawless) : session.Clean where
  once := h.once
  done package mem := by
    obtain ⟨state, there, -⟩ := h.ended package mem
    obtain ⟨-, checked, rfl⟩ := flawless package state there
    exact ⟨checked, there⟩

/-- Whatever was asked of a session, and however the tree changed meanwhile: if no package has
errors, and each has a path, then an unsupported node of the atlas is that of a primitive. It
is found in the package with the empty path, under a spelling that is not registered. A type of
any other package has a kind. -/
theorem unsupported_unregistered (locator : Locator) (config : Config)
    (asked : List (FileTree × Request)) (tree : FileTree)
    (flawless : ((start config).serveOver Source.frontend locator asked).Flawless) :
    ∃ atlas, ((start config).serveOver Source.frontend locator asked).atlas
        { frontend := Source.frontend, locator, tree } = .ok atlas ∧
      (∀ id node, atlas.node? id = some node → node.kind = .unsupported →
        node.name.package = "" ∧ atlas.findType? (.bare node.name.name) = some id ∧
          Primitive.isRegistered node.name.name = false ∧
          (node.name.name ∈ ["rune", "complex64", "complex128"] ∨
            ∃ kind : Untyped, node.name.name = kind.text)) ∧
      ∀ name id node, name.package ≠ "" → atlas.findType? name = some id →
        atlas.node? id = some node → node.kind ≠ .unsupported := by
  generalize served : (start config).serveOver Source.frontend locator asked = session at flawless
  obtain ⟨accounted, grounded⟩ : session.Accounted ∧ Grounded Source.frontend session :=
    served ▸ grounded_serveOver (accounted_start config) (grounded_start _ config) locator asked
  have linked : Linked session := served ▸ linked_serveOver (linked_start config) locator asked
  have every := linked.every (accounted.clean flawless)
  have supported := supported_surveys
    (@cover_definitions { frontend := Source.frontend, locator, tree } session rfl grounded flawless
      every) every session.requestedPackages Atlas.supported_empty
  refine ⟨_, accounted.atlas_eq, fun id node hn kind => ?_, fun name id node full found hn => ?_⟩
  · have unregistered := supported.unregistered id node hn kind
    refine ⟨unregistered.package, supported.findType?_of_unsupported hn kind,
      unregistered.unknown, unregistered.leaf.imp_left fun basic => ?_⟩
    exact Check.unregistered_basicNames _ basic unregistered.unknown
  · exact supported.kind_ne_unsupported full found hn

/-- Three packages. The last one refers to the first through an alias of the second. -/
def marksSource : Environment SourceTree :=
  topSource
    (((({} : FileTree).put ⟨"/base/b.go"⟩ (.text "package base\n\ntype Mark rune\n")).put
        ⟨"/lib/l.go"⟩ (.text "package lib\n\nimport \"base\"\n\ntype Marks = []base.Mark\n")).put
        ⟨"/app/a.go"⟩ (.text ("package app\n\nimport \"lib\"\n\nconst Limit = 10\n\n"
          ++ "func Scale(marks lib.Marks) (complex128, error) \x7b\n\x7d\n")))

def marksSession : Session SourceTree :=
  (start {}).serveOver Source.frontend marksSource.locator
    [(marksSource.tree, .command (.add "app"))]

/-- Three nodes are unsupported, and no type of the three packages is. -/
theorem unsupported_unregistered_marks : marksSession.Flawless ∧
    ∃ atlas, marksSession.atlas marksSource = .ok atlas ∧
      (atlas.nodes.toList.filter (·.kind == .unsupported)).map (·.name.name) =
        ["untyped int", "rune", "complex128"] ∧
      (atlas.findType? { package := "base", name := "Mark" }).isSome = true ∧
      ∀ name id node, name.package ≠ "" → atlas.findType? name = some id →
        atlas.node? id = some node → node.kind ≠ .unsupported := by
  obtain ⟨flawless, only⟩ : marksSession.Flawless ∧ marksSession.requestedPackages = ["app"] := by
    decide +kernel
  obtain ⟨atlas, made, -, others⟩ := unsupported_unregistered marksSource.locator {}
    [(marksSource.tree, .command (.add "app"))] marksSource.tree flawless
  have accounted : marksSession.Accounted :=
    (grounded_serveOver (accounted_start {}) (grounded_start Source.frontend {}) _ _).1
  obtain ⟨_, made', shown⟩ : ∃ atlas, marksSession.atlas marksSource = .ok atlas ∧
      ((atlas.nodes.toList.filter (·.kind == .unsupported)).map (·.name.name),
        (atlas.findType? { package := "base", name := "Mark" }).isSome) =
        (["untyped int", "rune", "complex128"], true) :=
    accounted.atlas_of_ordered marksSource only (by decide +kernel)
  cases made.symm.trans made'
  obtain ⟨names, found⟩ := Prod.mk.inj shown
  exact ⟨flawless, atlas, made, names, found, others⟩

end Session

end GoAtlas
