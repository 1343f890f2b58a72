import GoAtlas.Proofs.Session.Documented
import GoAtlas.Proofs.Source.Layout

/-!
# The comment before the closest one

Besides the comment right above it, a type or a function is given the comment that ends two
lines above that one, or two lines above the declaration where there is none. Nothing else in
a survey writes such an earlier comment, so one that a node has leads back to a declaration
(`Remarks`), and from there to the lines of a file.

One line lies between the two comments. It is no comment line, since comment groups are as long
as possible, so it is blank or there is code on it. In the second case the earlier comment is the
one right above that code: the comment of another declaration (`earlier_comment_layout`,
`earlier_comment_of_other`).
-/

namespace GoAtlas

/-! ## Who writes earlier comments -/

namespace Atlas

variable {before between after atlas : Atlas} {written others : Slot → List String → Prop}
  {id : NodeId}

/-- An earlier comment in the later atlas was there before, or was written for a slot of its
node. -/
structure Remarks (written : Slot → List String → Prop) (before after : Atlas) : Prop where
  bound : ∀ slot id, before.target? slot = some id → after.target? slot = some id
  origin : ∀ id later, after.node? id = some later → later.earlierComments ≠ [] →
    (∃ node, before.node? id = some node ∧ node.earlierComments = later.earlierComments) ∨
      ∃ slot, written slot later.earlierComments ∧ after.target? slot = some id

namespace Remarks

theorem refl (written : Slot → List String → Prop) (atlas : Atlas) : Remarks written atlas atlas :=
  ⟨fun _ _ => id, fun _ node there _ => .inl ⟨node, there, rfl⟩⟩

theorem trans (h : Remarks written before between) (h' : Remarks written between after) :
    Remarks written before after where
  bound slot id found := h'.bound slot id (h.bound slot id found)
  origin id later there full := by
    rcases h'.origin id later there full with ⟨node, there, same⟩ | now
    · rw [← same] at full
      rcases h.origin id node there full with ⟨old, there, same'⟩ | ⟨slot, wrote, leads⟩
      · exact .inl ⟨old, there, same'.trans same⟩
      · exact .inr ⟨slot, same ▸ wrote, h'.bound slot id leads⟩
    · exact .inr now

theorem mono (h : Remarks written before after)
    (more : ∀ slot text, written slot text → others slot text) : Remarks others before after where
  bound := h.bound
  origin id later there full := by
    rcases h.origin id later there full with old | ⟨slot, wrote, leads⟩
    · exact .inl old
    · exact .inr ⟨slot, more slot _ wrote, leads⟩

/-- Nodes may be added without earlier comments. -/
theorem of_new (bound : ∀ slot id, before.target? slot = some id → after.target? slot = some id)
    (new : ∀ id later, after.node? id = some later →
      before.node? id = some later ∨ later.earlierComments = []) :
    Remarks written before after where
  bound := bound
  origin id later there full := by
    rcases new id later there with old | none
    · exact .inl ⟨later, old, rfl⟩
    · exact absurd none full

theorem typeNode (atlas : Atlas) (name : Name) :
    Remarks written atlas (atlas.typeNode name).2 := by
  refine .of_new (Extends.typeNode atlas name).bound fun id later there => ?_
  rcases node?_typeNode there with old | ⟨rfl, -⟩ | ⟨canonical, -, rfl⟩
  · exact .inl old
  · exact .inr rfl
  · exact .inr rfl

/-- A node may be changed besides its earlier comments. -/
theorem updateNode (h : Remarks written before after) {f : Node → Node}
    (same : ∀ node, (f node).earlierComments = node.earlierComments) :
    Remarks written before (after.updateNode id f) where
  bound := h.bound
  origin other later there full := by
    rw [node?_updateNode] at there
    split at there
    · next here =>
      obtain ⟨node, found, rfl⟩ := Option.map_eq_some_iff.1 there
      rw [same] at full ⊢
      rw [here]
      exact h.origin id node found full
    · exact h.origin other later there full

theorem resolve (atlas : Atlas) (id : NodeId) (kind : Kind) :
    Remarks written atlas (atlas.resolve id kind) := by
  unfold Atlas.resolve
  split
  · exact (refl written atlas).updateNode fun _ => rfl
  · exact refl written atlas

end Remarks

end Atlas

/-- A walk writes no earlier comments. -/
theorem Walk.carries_remarks (written : Slot → List String → Prop) :
    Carries fun before after => Atlas.Remarks written before.atlas after.atlas where
  refl walk := .refl written walk.atlas
  trans := .trans
  findType? remarks name id found := remarks.bound name.slot id found
  claim walk name := .typeNode walk.atlas name
  resolve walk id kind := .resolve walk.atlas id kind
  finish fresh remarks kind := by
    rename_i walk claimed after name id
    have made : (walk.atlas.typeNode name).2 = claimed.atlas :=
      congrArg (fun claim => claim.2.atlas) fresh
    have claim : Atlas.Remarks written walk.atlas claimed.atlas :=
      made ▸ .typeNode walk.atlas name
    exact (claim.trans remarks).trans (.resolve _ _ _)
  setMethods remarks _ methods := by
    unfold Walk.setMethods
    split
    · exact remarks
    · exact remarks.updateNode fun _ => rfl
  comment _ comments := by
    refine (Atlas.Remarks.refl written _).updateNode fun node => ?_
    split <;> rfl

namespace Atlas.Remarks

variable {written : Slot → List String → Prop}

theorem addType (lookup : Lookup) (type : TypeExpr) (walk : Walk) :
    Remarks written walk.atlas (walk.addType lookup none type).2.atlas :=
  (Walk.carries_remarks written).addType lookup none type walk

theorem declare (lookup : Lookup) (sort : DeclarationSort) (name : Name) (type : TypeExpr)
    (walk : Walk) : Remarks written walk.atlas (walk.declare lookup sort name type).2.atlas := by
  have made : Remarks written walk.atlas (walk.atlas.declarationNode sort name).2 := by
    refine .of_new (Extends.declarationNode walk.atlas sort name).bound fun id later there => ?_
    rw [declarationNode_eq] at there
    split at there
    · exact .inl there
    · rw [node?_addNode] at there
      split at there
      · cases there
        exact .inr rfl
      · exact .inl there
  refine (made.trans (addType lookup type { walk with
    atlas := (walk.atlas.declarationNode sort name).2 })).trans ?_
  unfold Walk.declare Atlas.declare
  dsimp only
  split
  · exact (refl written _).updateNode fun _ => rfl
  · exact refl written _

/-- The node of a slot may be given the comments above a position. -/
theorem attachDoc (lookup : Lookup) {walk : Walk} {slot : Slot} {id : NodeId}
    (leads : walk.atlas.target? slot = some id) {pos : Option Position}
    (wrote : ∀ place, pos = some place → ∀ group,
      (Walk.commentsAbove lookup.comments place).2 = some group → written slot group.textLines) :
    Remarks written walk.atlas (walk.attachDoc lookup id pos).atlas := by
  cases pos with
  | none => exact refl written walk.atlas
  | some place =>
    refine ⟨fun _ _ found => found, fun other later there full => ?_⟩
    unfold Walk.attachDoc at there
    dsimp only at there
    rw [node?_updateNode] at there
    split at there
    · next here =>
      obtain ⟨node, -, rfl⟩ := Option.map_eq_some_iff.1 there
      dsimp only at full ⊢
      cases second : (Walk.commentsAbove lookup.comments place).2 with
      | none =>
        rw [second] at full
        exact absurd rfl full
      | some group =>
        refine .inr ⟨slot, wrote place rfl group second, ?_⟩
        rw [here]
        exact leads
    · exact .inl ⟨later, there, rfl⟩

end Atlas.Remarks

namespace Session

/-! ## Surveys -/

section Surveys

variable (lookup : Lookup) (package : String) (walk : Walk)

/-- The declaration documents the slot, and the text is that of the comment before the closest
one. -/
def Remarked (comments : CommentIndex) (package : String) (declaration : Declaration)
    (slot : Slot) (text : List String) : Prop :=
  declaration.documented? package = some slot ∧ ∃ pos group, declaration.pos = some pos ∧
    (Walk.commentsAbove comments pos).2 = some group ∧ text = group.textLines

theorem remarks_survey (declaration : Declaration) :
    Atlas.Remarks (Remarked lookup.comments package declaration) walk.atlas
      (survey lookup package walk declaration).atlas := by
  cases documents : declaration.documented? package with
  | none =>
    exact survey_undocumented lookup package walk (fun _ _ _ => .declare lookup _ _ _ walk)
      (.refl _ walk.atlas) documents
  | some slot =>
    obtain ⟨between, id, remarks, leads, eq⟩ := survey_documented lookup package walk
      (R := Atlas.Remarks (Remarked lookup.comments package declaration))
      (fun _ _ _ => .declare lookup _ _ _ walk) (.addType lookup · walk) documents
    rw [eq]
    exact remarks.trans (.attachDoc lookup leads fun place placed group second =>
      ⟨documents, place, group, placed, second, rfl⟩)

end Surveys

section Packages

variable {U : Type} (env : Environment U) (session : Session U)

/-- Some declaration of the packages was given the text for the slot. -/
def RemarkedIn (packages : List String) (slot : Slot) (text : List String) : Prop :=
  ∃ package ∈ packages, ∃ checked, session.checked? package = some checked ∧
    ∃ declaration ∈ checked.declarations,
      Remarked session.sources.comments package declaration slot text

theorem remarks_packages (packages : List String) (atlas : Atlas) :
    Atlas.Remarks (session.RemarkedIn packages) atlas
      (packages.foldl (session.surveyOne env) atlas) := by
  refine foldl_surveyOne env session (.refl _ atlas) (fun before package checked remarks => ?_) ?_
    (fun before package paths remarks => ?_)
  · have headed := annotates_headed session (fun _ => False) before package checked
    exact remarks.trans (.of_new headed.bound fun id later => .inl)
  · intro package mem checked known declaration listed walk remarks
    refine remarks.trans ?_
    refine (remarks_survey _ package walk declaration).mono fun slot text wrote => ?_
    exact ⟨package, mem, checked, known, declaration, listed, wrote⟩
  · have imported := annotates_addImports (fun _ => False) before package paths
    refine remarks.trans (.of_new imported.bound fun id later there => .inl ?_)
    rwa [Atlas.node?_addImports] at there

/-- An earlier comment in an atlas was written for a declaration of a package that was asked
for. -/
theorem Accounted.remarked {env : Environment U} {session : Session U} {atlas : Atlas}
    (h : session.Accounted) (made : session.atlas env = .ok atlas) {id : NodeId} {node : Node}
    (there : atlas.node? id = some node) (full : node.earlierComments ≠ []) :
    ∃ slot, session.RemarkedIn session.requestedPackages slot node.earlierComments ∧
      atlas.target? slot = some id := by
  rw [h.atlas_eq] at made
  cases made
  rcases (remarks_packages env session session.requestedPackages {}).origin id node there full with
    ⟨old, there, -⟩ | wrote
  · cases there
  · exact wrote

end Packages

/-! ## Where declarations stand -/

end Session

/-- The tree declares a type or a function, and no method. -/
def NamedTree.isDocumented (tree : NamedTree) : Bool :=
  match tree.declaration with
  | .type _ _ | .func none _ => true
  | .func (some _) _ | .var _ | .const _ _ => false

/-- A declaration of a package is that of a tree in one of its files. -/
theorem Check.tree_of_package {package : String} {files : List (SourceFile SourceTree)}
    {imported? : String → Option Checked} {checked : Checked}
    (ok : Check.package package files imported? = .ok checked) {declaration : Declaration}
    (mem : declaration ∈ checked.declarations) {slot : Slot}
    (documents : declaration.documented? package = some slot) :
    ∃ file ∈ files, ∃ tree ∈ file.unit.declarations, tree.isDocumented = true ∧
      declaration.name = tree.name ∧
      declaration.pos = some { file := file.path, line := tree.line } := by
  obtain ⟨scope, h⟩ := resolves_of_package ok
  rw [h.declarations, mem_declarations_iff] at mem
  obtain ⟨file, mem, tree, among, value⟩ := mem
  obtain ⟨name, pos⟩ := declarationOf_eq_some value
  refine ⟨file, mem, tree, among, ?_, name, pos⟩
  obtain ⟨called, line, what⟩ := tree
  cases what with
  | type type isAlias => rfl
  | func receiver signature =>
    cases receiver with
    | none => rfl
    | some receiver => cases value
  | var type =>
    cases value
    cases documents
  | const type untyped =>
    cases type <;> cases value <;> cases documents

/-- The first line of the comment right above a line, or the line itself. -/
def SourceFile.topAbove {U : Type} (file : SourceFile U) (line : Nat) : Nat :=
  ((file.comments.find? fun group => group.stop + 1 == line).map CommentGroup.start).getD line

/-- The comments of a file are those of its text, and its declarations stand on lines of it. -/
theorem Environment.layout_of_file? {env : Environment SourceTree}
    (front : env.frontend = Source.frontend) {path : FilePath} {file : SourceFile SourceTree}
    (there : env.file? path = some file) :
    ∃ text, env.tree.read path = .ok text ∧
      file.comments = Source.commentGroups (Text.lines text.toList) ∧
      ∀ tree ∈ file.unit.declarations,
        Source.HoldsCode (Text.lines text.toList) tree.line := by
  obtain ⟨text, found, read, parsed, rfl⟩ := read_of_file? there
  rw [front] at parsed
  have parsed := Source.parse_of_frontend parsed
  have layout := Source.holdsCode_of_parse parsed
  exact ⟨text, read, (Source.readLines_of_parse parsed).1, layout⟩

namespace Session

variable {env : Environment SourceTree} {session : Session SourceTree} {package : String}
  {file : SourceFile SourceTree}

theorem Commented.commentsAbove (h : Commented env session)
    (mem : file ∈ session.sources.filesOf package) (line : Nat) :
    (Walk.commentsAbove session.sources.comments { file := file.path, line }).2 =
      file.comments.find? fun group => group.stop + 2 == file.topAbove line := by
  unfold Walk.commentsAbove SourceFile.topAbove
  rw [h.prior? mem]
  cases file.comments.find? fun group => group.stop + 1 == line with
  | none => exact h.prior? mem line 2
  | some closest => exact h.prior? mem closest.start 2

/-- The group is the one before the closest comment above the line: one line is between them,
which is there and is no comment line, and the group is the comment right above that line. -/
structure Precedes (lines : List (List Char)) (file : SourceFile SourceTree) (line : Nat)
    (group : CommentGroup) : Prop where
  mem : group ∈ file.comments
  apart : group.stop + 2 = file.topAbove line
  between : ∃ text, Source.lineAt? lines (group.stop + 1) = some text ∧
    Source.isCommentLine (Text.trim text) = false
  above : file.textAbove (group.stop + 1) = group.textLines

/-- No comment that ends above the line starts below it. -/
theorem topAbove_le {lines : List (List Char)}
    (comments : file.comments = Source.commentGroups lines) (line : Nat) :
    file.topAbove line ≤ line := by
  unfold SourceFile.topAbove
  cases ending : file.comments.find? fun group => group.stop + 1 == line with
  | none => exact Nat.le_refl _
  | some closest =>
    have listed := List.mem_of_find?_eq_some ending
    have ends := List.find?_some ending
    rw [comments] at listed
    have within := (Source.below_commentGroups listed).1
    rw [beq_iff_eq] at ends
    rw [Option.map_some, Option.getD_some]
    omega

theorem precedes_of_find? {lines : List (List Char)} {line : Nat} {group : CommentGroup}
    (comments : file.comments = Source.commentGroups lines) (code : Source.HoldsCode lines line)
    (found : (file.comments.find? fun group => group.stop + 2 == file.topAbove line) =
      some group) : Precedes lines file line group := by
  have mem := List.mem_of_find?_eq_some found
  have apart : group.stop + 2 = file.topAbove line := by
    simpa using List.find?_some found
  have top := topAbove_le comments line
  refine ⟨mem, apart, ?_, ?_⟩
  · have short : group.stop < lines.length := by
      obtain ⟨text, there, -⟩ := code
      cases line with
      | zero => cases there
      | succ number =>
        have := (List.getElem?_eq_some_iff.1 there).1
        omega
    refine ⟨lines[group.stop], List.getElem?_eq_getElem short, ?_⟩
    rw [comments] at mem
    exact (Source.below_commentGroups mem).2 _ (List.getElem?_eq_getElem short)
  · have same : (file.comments.find? fun other => other.stop + 1 == group.stop + 1) =
        some group := by
      rw [← found, ← apart]
      congr 1
      funext other
      rw [Bool.eq_iff_iff, beq_iff_eq, beq_iff_eq]
      omega
    rw [SourceFile.textAbove, same]
    rfl

/-- The tree is listed as a declaration of the package that documents the node. -/
def Documents (session : Session SourceTree) (atlas : Atlas) (package : String)
    (file : SourceFile SourceTree) (tree : NamedTree) (id : NodeId) : Prop :=
  ∃ checked declaration slot, session.checked? package = some checked ∧
    declaration ∈ checked.declarations ∧ declaration.name = tree.name ∧
    declaration.pos = some { file := file.path, line := tree.line } ∧
    declaration.documented? package = some slot ∧ atlas.target? slot = some id

/-- Over one tree, whatever is asked of a session: in the atlas every declaration of a type or
a function of the packages that were asked for has its node. If a node has an earlier comment,
that is one of a file with a declaration of the node. It stands above the closest comment of
the declaration, or above the declaration where it has none, with one line between the two.
This line is blank unless there is code on it, and the earlier comment is the comment right
above it. So if another declaration is on the line, the line is not blank, and the earlier
comment is the one of that declaration. -/
theorem earlier_comment_layout (locator : Locator) (tree : FileTree) (config : Config)
    (requests : List Request) :
    let env : Environment SourceTree := { frontend := Source.frontend, locator, tree }
    let session := (start config).serve env requests
    ∃ atlas, session.atlas env = .ok atlas ∧
      (∀ package checked, session.requested.contains package = true →
        session.checked? package = some checked → ∀ declaration ∈ checked.declarations,
          ∀ slot, declaration.documented? package = some slot →
            ∃ id node, atlas.target? slot = some id ∧ atlas.node? id = some node) ∧
      ∀ id node, atlas.node? id = some node → node.earlierComments ≠ [] →
        ∃ package file text declaration group, session.requested.contains package = true ∧
          file ∈ session.sources.filesOf package ∧ tree.read file.path = .ok text ∧
          declaration ∈ file.unit.declarations ∧ declaration.isDocumented = true ∧
          session.Documents atlas package file declaration id ∧
          Precedes (Text.lines text.toList) file declaration.line group ∧
          node.earlierComments = group.textLines ∧
          (¬ Source.HoldsCode (Text.lines text.toList) (group.stop + 1) →
            ∃ line, Source.lineAt? (Text.lines text.toList) (group.stop + 1) = some line ∧
              Text.trim line = []) ∧
          ∀ other ∈ file.unit.declarations, other.line = group.stop + 1 →
            file.textAbove other.line = node.earlierComments ∧
            ∀ line, Source.lineAt? (Text.lines text.toList) (group.stop + 1) = some line →
              Text.trim line ≠ [] := by
  intro env session
  have accounted : session.Accounted :=
    (proceeds_serve (.refl (accounted_start config)) requests).accounted
  have grounded : Grounded Source.frontend session :=
    (lasting_grounded env).serve (grounded_start _ config) requests
  have commented : Commented env session :=
    (lasting_commented rfl).serve (commented_start env config) requests
  refine ⟨_, accounted.atlas_eq, ?_, fun id node there full => ?_⟩
  · intro package checked requested known declaration mem slot documents
    obtain ⟨checked', done, known'⟩ := accounted.checked?_of_requested requested
    cases known.symm.trans known'
    obtain ⟨files, -, imported?, -, -, ok⟩ := grounded.answered package checked done
    obtain ⟨file, -, written, -, -, -, placed⟩ := Check.tree_of_package ok mem documents
    obtain ⟨before, after, sorted⟩ := List.append_of_mem ((checked.mem_sorted _).2 mem)
    obtain ⟨id, node, leads, there, -⟩ := accounted.shows_atlas accounted.atlas_eq requested known
      sorted documents placed
    exact ⟨id, node, leads, there⟩
  · obtain ⟨slot, ⟨package, among, checked, known, declaration, listed, documents, pos, group,
      placed, second, text⟩, leads⟩ := accounted.remarked accounted.atlas_eq there full
    have requested := accounted.mem_requestedPackages.1 among
    obtain ⟨checked', done, known'⟩ := accounted.checked?_of_requested requested
    cases known.symm.trans known'
    obtain ⟨files, -, imported?, prior, -, ok⟩ := grounded.answered package checked done
    obtain ⟨file, mem, written, inside, documented, name, pos'⟩ :=
      Check.tree_of_package ok listed documents
    have mem := prior.subset mem
    cases placed.symm.trans pos'
    obtain ⟨source, read, groups, layout⟩ :=
      Environment.layout_of_file? rfl (commented.read package file mem)
    rw [commented.commentsAbove mem] at second
    have precedes := precedes_of_find? groups (layout written inside) second
    refine ⟨package, file, source, written, group, requested, mem, read, inside, documented,
      ⟨checked, declaration, slot, known, listed, name, placed, documents, leads⟩, precedes, text,
      fun none => ?_, fun other mem' on => ⟨?_, fun line there blank => ?_⟩⟩
    · obtain ⟨line, there, comment⟩ := precedes.between
      have empty : Source.content line = [] := by_contra fun code => none ⟨line, there, code⟩
      exact ⟨line, there, Source.blank_of_content comment empty⟩
    · rw [on, precedes.above, text]
    · obtain ⟨line', there', code⟩ := layout other mem'
      rw [on, there] at there'
      cases there'
      exact code (Source.content_of_blank blank)

/-! ## The comment of another declaration -/

/-- Two declarations on lines one after the other, the first one with a comment. -/
def adjacentSource : Environment SourceTree :=
  topSource (({} : FileTree).put ⟨"/p/p.go"⟩ (.text
    "package p\n\n// A is a number.\ntype A int\ntype B int\n"))

def adjacentSession : Session SourceTree :=
  (start {}).serve adjacentSource [.command (.add "p")]

/-- The comment right above the first declaration, on line 4, is the earlier comment of the
second one, on line 5. -/
theorem earlier_comment_of_other :
    (∃ file ∈ adjacentSession.sources.filesOf "p",
      file.unit.declarations.map (fun tree => (tree.name, tree.line)) = [("A", 4), ("B", 5)] ∧
        file.textAbove 4 = ["A is a number."]) ∧
      ∃ atlas id node, adjacentSession.atlas adjacentSource = .ok atlas ∧
        atlas.findType? { package := "p", name := "B" } = some id ∧
        atlas.node? id = some node ∧ node.comments = [] ∧
        node.earlierComments = ["A is a number."] := by
  have accounted : adjacentSession.Accounted :=
    (proceeds_serve (.refl (accounted_start {})) _).accounted
  have only : adjacentSession.requestedPackages = ["p"] := by decide +kernel
  obtain ⟨atlas, made, shown⟩ : ∃ atlas, adjacentSession.atlas adjacentSource = .ok atlas ∧
      ((atlas.findType? { package := "p", name := "B" }).bind fun id =>
        (atlas.node? id).map fun node => (node.comments, node.earlierComments)) =
        some ([], ["A is a number."]) :=
    accounted.atlas_of_ordered adjacentSource only (by decide +kernel)
  refine ⟨by decide +kernel, ?_⟩
  obtain ⟨id, found, shown⟩ := Option.bind_eq_some_iff.1 shown
  obtain ⟨node, there, shown⟩ := Option.map_eq_some_iff.1 shown
  obtain ⟨closest, earlier⟩ := Prod.mk.inj shown
  exact ⟨atlas, id, node, made, found, there, closest, earlier⟩

end Session

end GoAtlas
