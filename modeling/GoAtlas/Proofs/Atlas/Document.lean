import GoAtlas.Atlas.Reader
import GoAtlas.Atlas.Writer
import GoAtlas.Proofs.Atlas.View

/-!
# Writing an atlas and reading it again

A reader and a writer belong together when whatever was written is read as it was, and
whatever is read could have been written (`Json.Restores`). The values for which this is
asked are those whose places fit 32 bits. Lists, tables and optional values hand the
property on, so each structure is settled from its own fields: what the writer leaves out
is what the reader takes a missing field for.
-/

namespace GoAtlas

namespace Json

variable {σ α : Type} {read : σ → Option α} {write : α → σ} {fits : α → Prop}

/-- Values that fit are read as they were written, and only such values are read. -/
structure Restores (read : σ → Option α) (write : α → σ) (fits : α → Prop) : Prop where
  read_write : ∀ value, fits value → read (write value) = some value
  fits_of_read : ∀ source value, read source = some value → fits value

/-! ## Simple values -/

@[simp] theorem string?_string (text : String) : (string text).string? = some text := rfl

@[simp] theorem bool?_bool (value : Bool) : (bool value).bool? = some value := rfl

theorem restores_string : Restores string? string fun _ => True where
  read_write _ _ := rfl
  fits_of_read _ _ _ := trivial

theorem restores_place : Restores place? nat (· < UInt32.size) where
  read_write id fits := if_pos fits
  fits_of_read json id read := by
    unfold place? natBelow? at read
    split at read
    · split at read
      · next fits =>
        cases read
        exact fits
      · cases read
    · cases read

/-! ## Lists and tables -/

namespace Restores

/-- The items of a list are read one by one. -/
theorem mapM_map (h : Restores read write fits) {values : List α}
    (each : ∀ value ∈ values, fits value) : (values.map write).mapM read = some values := by
  induction values with
  | nil => rfl
  | cons value rest ih =>
    have first := h.read_write value (each value List.mem_cons_self)
    have others := ih fun other mem => each other (List.mem_cons_of_mem _ mem)
    rw [List.map_cons, List.mapM_cons, first, others]
    rfl

theorem fits_of_mapM (h : Restores read write fits) {items : List σ} {values : List α}
    (all : items.mapM read = some values) : ∀ value ∈ values, fits value := by
  induction items generalizing values with
  | nil =>
    cases all
    simp
  | cons item items ih =>
    rw [List.mapM_cons] at all
    obtain ⟨value, first, all⟩ := Option.bind_eq_some_iff.1 all
    obtain ⟨rest, others, all⟩ := Option.bind_eq_some_iff.1 all
    cases all
    exact List.forall_mem_cons.2 ⟨h.fits_of_read item value first, ih others⟩

variable {read : Json → Option α} {write : α → Json} (h : Restores read write fits)

include h

theorem list :
    Restores (listOf? read) (fun values => array (values.map write))
      (fun values => ∀ value ∈ values, fits value) where
  read_write _ each := h.mapM_map each
  fits_of_read json values all := by
    cases json with
    | array items => exact h.fits_of_mapM all
    | _ => cases all

/-- A member of an object is a value under its key. -/
theorem entry :
    Restores (fun member : String × Json => (read member.2).map (member.1, ·))
      (fun entry => (entry.1, write entry.2)) (fun entry => fits entry.2) where
  read_write entry fits := by
    rw [h.read_write entry.2 fits]
    rfl
  fits_of_read member entry there := by
    obtain ⟨value, found, rfl⟩ := Option.map_eq_some_iff.1 there
    exact h.fits_of_read member.2 value found

theorem members :
    Restores (membersOf? read)
      (fun entries => object (entries.map fun entry => (entry.1, write entry.2)))
      (fun entries => ∀ entry ∈ entries, fits entry.2) where
  read_write _ each := h.entry.mapM_map each
  fits_of_read json entries all := by
    cases json with
    | object members => exact h.entry.fits_of_mapM all
    | _ => cases all

omit h

/-- The values of a table are among the members it was read from. -/
theorem fits_ofList {entries : List (String × α)} (each : ∀ entry ∈ entries, fits entry.2) :
    ∀ value ∈ (Table.ofList entries).values, fits value := by
  intro value mem
  obtain ⟨key, there⟩ := (Table.mem_values_iff _ _).1 mem
  exact each (key, value) (Table.mem_of_get?_ofList there)

theorem fits_entries {table : Table α} (each : ∀ value ∈ table.values, fits value) :
    ∀ entry ∈ table.entries, fits entry.2 := by
  intro entry mem
  exact each entry.2 (List.mem_map_of_mem mem)

end Restores

theorem restores_strings : Restores strings? strings fun _ => True where
  read_write texts _ := restores_string.list.read_write texts fun _ _ => trivial
  fits_of_read _ _ _ := trivial

theorem restores_places :
    Restores places? places fun table => ∀ id ∈ table.values, id < UInt32.size where
  read_write table each := by
    have entries := restores_place.members.read_write table.entries (Restores.fits_entries each)
    unfold places? places
    rw [entries, Option.map_some, Table.ofList_entries]
  fits_of_read json table there := by
    obtain ⟨entries, found, rfl⟩ := Option.map_eq_some_iff.1 there
    exact Restores.fits_ofList (restores_place.members.fits_of_read json entries found)

/-! ## Fields -/

namespace Record

section

variable (members : List (String × Json)) (name : String) (place : Nat)

@[simp] theorem field?_named :
    (named members).field? name place = members.lookup name := rfl

@[simp] theorem required_named (read : Json → Option α) :
    (named members).required name place read = (members.lookup name).bind read := rfl

@[simp] theorem optional_named (default : α) (read : Json → Option α) :
    (named members).optional name place default read =
      (members.lookup name).elim (some default) read := by
  rw [optional, field?_named]
  cases members.lookup name <;> rfl

@[simp] theorem nullable_named (read : Json → Option α) :
    (named members).nullable name place read =
      (members.lookup name).elim (some none) (optionOf? read) := by
  unfold nullable
  rw [field?_named]
  cases members.lookup name <;> rfl

end

end Record

@[simp] theorem record?_object (count : Nat) (members : List (String × Json)) :
    (object members).record? count = some (.named members) := rfl

@[simp] theorem lookup_member? (name : String) (absent : Bool) (value : Json) :
    (member? name absent value).lookup name = if absent then none else some value := by
  cases absent <;> simp [member?]

theorem lookup_member?_of_ne {key name : String} (h : key ≠ name) (absent : Bool)
    (value : Json) : (member? name absent value).lookup key = none := by
  cases absent with
  | false => rw [member?, if_neg (by simp), Table.lookup_cons_ite, if_neg h, List.lookup_nil]
  | true => rfl

/-- A field that is left out where it holds the default is read as what it holds. -/
@[simp] theorem elim_absent {value default : α} [Decidable (value = default)] {json : Json}
    {read : Json → Option α} (reads : read json = some value) :
    (if value = default then none else some json).elim (some default) read = some value := by
  split
  · next same => rw [same, Option.elim_none]
  · exact reads

namespace Restores

variable {read : Json → Option α} {write : α → Json} {record : Record} {name : String}
  {place : Nat} (h : Restores read write fits)

include h

theorem of_required {value : α}
    (there : record.required name place read = some value) : fits value := by
  obtain ⟨json, -, found⟩ := Option.bind_eq_some_iff.1 there
  exact h.fits_of_read json value found

theorem of_optional {value default : α} (absent : fits default)
    (there : record.optional name place default read = some value) : fits value := by
  unfold Record.optional at there
  split at there
  · next json _ => exact h.fits_of_read json value there
  · cases there
    exact absent

theorem of_nullable {value : Option α}
    (there : record.nullable name place read = some value) : ∀ inner ∈ value, fits inner := by
  have inside (json : Json) (found : optionOf? read json = some value) :
      ∀ inner ∈ value, fits inner := by
    unfold optionOf? at found
    split at found
    · cases found
      simp
    · obtain ⟨inner, here, rfl⟩ := Option.map_eq_some_iff.1 found
      simpa using h.fits_of_read json inner here
  unfold Record.nullable at there
  split at there
  · next json _ => exact inside json there
  · cases there
    simp
  · cases there

end Restores

/-- An absent place is written `null`, as no place that is there is. -/
theorem optionOf?_place {value : Option NodeId} (each : ∀ id ∈ value, id < UInt32.size) :
    optionOf? place? (ofOption nat value) = some value := by
  cases value with
  | none => rfl
  | some id =>
    have found := restores_place.read_write id (each id rfl)
    show (place? (nat id)).map some = _
    rw [found, Option.map_some]

end Json

open Json

/-! ## Structures -/

theorem restores_name : Restores Name.ofJson? Name.toJson fun _ => True where
  read_write name _ := by
    obtain ⟨package, name, path⟩ := name
    cases path with
    | none => simp [Name.ofJson?, Name.toJson, List.lookup_cons]
    | some path => simp [Name.ofJson?, Name.toJson, List.lookup_cons, optionOf?]
  fits_of_read _ _ _ := trivial

theorem restores_member : Restores Member.ofJson? Member.toJson (·.type < UInt32.size) where
  read_write member fits := by
    have tag := restores_string.read_write member.tag trivial
    have comments := restores_strings.read_write member.comments trivial
    have type := restores_place.read_write member.type fits
    simp [Member.ofJson?, Member.toJson, linesMember, List.lookup_append, List.lookup_cons,
      lookup_member?_of_ne, tag, comments, type]
  fits_of_read json member there := by
    simp only [Member.ofJson?, Option.bind_eq_bind, Option.bind_eq_some_iff, Option.pure_def,
      Option.some.injEq] at there
    obtain ⟨fields, -, name, -, embedded, -, tag, -, comments, -, type, found, rfl⟩ := there
    exact restores_place.of_required found

theorem restores_signature :
    Restores Signature.ofJson? Signature.toJson (∀ id ∈ ·.refs, id < UInt32.size) where
  read_write signature fits := by
    have places := restores_place.list
    have parameters := places.read_write signature.parameters fun id mem =>
      fits id (by simp [Signature.refs, mem])
    have results := places.read_write signature.results fun id mem =>
      fits id (by simp [Signature.refs, mem])
    have receiver : optionOf? place? (ofOption nat signature.receiver) = _ :=
      optionOf?_place fun id mem => fits id (by simpa [Signature.refs] using .inr (.inr mem))
    have comments := restores_strings.read_write signature.comments trivial
    simp [Signature.ofJson?, Signature.toJson, linesMember, List.lookup_cons, parameters,
      results, receiver, comments]
  fits_of_read json signature there := by
    simp only [Signature.ofJson?, Option.bind_eq_bind, Option.bind_eq_some_iff, Option.pure_def,
      Option.some.injEq] at there
    obtain ⟨fields, -, receiver, ofReceiver, parameters, ofParameters, results, ofResults,
      variadic, -, comments, -, rfl⟩ := there
    intro id mem
    simp only [Signature.refs, List.mem_append, Option.mem_toList] at mem
    rcases mem with (mem | mem) | mem
    · exact restores_place.list.of_required ofParameters id mem
    · exact restores_place.list.of_required ofResults id mem
    · exact restores_place.of_nullable ofReceiver id mem

namespace Kind

theorem ofJson?_toJson (kind : Kind) (fits : ∀ id ∈ kind.refs, id < UInt32.size) :
    ofJson? kind.toJson = some kind := by
  show ofWord? (.named (("kind", string kind.word) :: kind.fields)) kind.word = _
  cases kind with
  | unknown | primitive | interface | unsupported => rfl
  | struct members =>
    have read := restores_member.list.read_write members fun member mem =>
      fits member.type (List.mem_map_of_mem mem)
    simp [word, fields, ofWord?, List.lookup_cons, read]
  | map key elem =>
    have ofKey := restores_place.read_write key (fits key (by simp [refs]))
    have ofElem := restores_place.read_write elem (fits elem (by simp [refs]))
    simp [word, fields, ofWord?, List.lookup_cons, ofKey, ofElem]
  | slice id | array id | pointer id | chan id | aliasOf id =>
    have read := restores_place.read_write id (fits id (by simp [refs]))
    simp [word, fields, ofWord?, List.lookup_cons, read]
  | func signature =>
    have read := restores_signature.read_write signature fits
    simp [word, fields, ofWord?, List.lookup_cons, read]
  | declaration underlying =>
    have read := optionOf?_place fun id mem => fits id (by simpa [refs] using mem)
    simp [word, fields, ofWord?, List.lookup_cons, read]

variable {record : Record} {name : String} {kind : Kind}

/-- A kind of one place refers to that place. -/
theorem fits_of_place {make : NodeId → Kind} (single : ∀ id, (make id).refs = [id])
    (there : make <$> record.required name 0 place? = some kind) :
    ∀ id ∈ kind.refs, id < UInt32.size := by
  obtain ⟨id, found, rfl⟩ := Option.map_eq_some_iff.1 there
  simpa [single] using restores_place.of_required found

theorem fits_of_ofWord? (there : ofWord? record name = some kind) :
    ∀ id ∈ kind.refs, id < UInt32.size := by
  unfold ofWord? at there
  split at there
  · cases there
    simp [refs]
  · cases there
    simp [refs]
  · cases there
    simp [refs]
  · cases there
    simp [refs]
  · -- a struct
    obtain ⟨members, found, rfl⟩ := Option.map_eq_some_iff.1 there
    simpa [refs] using restores_member.list.of_required found
  · -- a map
    simp only [Option.bind_eq_bind, Option.bind_eq_some_iff, Option.pure_def,
      Option.some.injEq] at there
    obtain ⟨key, ofKey, elem, ofElem, rfl⟩ := there
    simpa [refs] using ⟨restores_place.of_required ofKey, restores_place.of_required ofElem⟩
  · exact fits_of_place (fun _ => rfl) there
  · exact fits_of_place (fun _ => rfl) there
  · exact fits_of_place (fun _ => rfl) there
  · exact fits_of_place (fun _ => rfl) there
  · -- a function
    obtain ⟨signature, found, rfl⟩ := Option.map_eq_some_iff.1 there
    exact restores_signature.of_required found
  · exact fits_of_place (fun _ => rfl) there
  · -- a declaration
    obtain ⟨underlying, found, rfl⟩ := Option.map_eq_some_iff.1 there
    simpa [refs] using restores_place.of_nullable found
  · cases there

theorem fits_of_ofJson? {json : Json} (there : ofJson? json = some kind) :
    ∀ id ∈ kind.refs, id < UInt32.size := by
  unfold ofJson? at there
  split at there
  · simp only [Option.bind_eq_bind, Option.bind_eq_some_iff] at there
    obtain ⟨json, -, word, -, found⟩ := there
    exact fits_of_ofWord? found
  · simp only [Option.bind_eq_bind, Option.bind_eq_some_iff] at there
    obtain ⟨word, -, count, -, found⟩ := there
    split at found
    · exact fits_of_ofWord? found
    · cases found
  · cases there

end Kind

theorem restores_kind :
    Restores Kind.ofJson? Kind.toJson (∀ id ∈ ·.refs, id < UInt32.size) where
  read_write := Kind.ofJson?_toJson
  fits_of_read _ _ := Kind.fits_of_ofJson?

/-- The places a node refers to. -/
def Node.places (node : Node) : List NodeId :=
  node.kind.refs ++ node.methods.values

theorem restores_node :
    Restores Node.ofJson? Node.toJson (∀ id ∈ ·.places, id < UInt32.size) where
  read_write node fits := by
    have name := restores_name.read_write node.name trivial
    have kind := restores_kind.read_write node.kind fun id mem =>
      fits id (List.mem_append_left _ mem)
    have comments := restores_strings.read_write node.comments trivial
    have earlier := restores_strings.read_write node.earlierComments trivial
    have methods := restores_places.read_write node.methods fun id mem =>
      fits id (List.mem_append_right _ mem)
    simp [Node.ofJson?, Node.toJson, linesMember, List.lookup_append, List.lookup_cons,
      lookup_member?_of_ne, Table.isEmpty_iff, name, kind, comments, earlier, methods]
  fits_of_read json node there := by
    simp only [Node.ofJson?, Option.bind_eq_bind, Option.bind_eq_some_iff, Option.pure_def,
      Option.some.injEq] at there
    obtain ⟨fields, -, name, -, kind, ofKind, comments, -, earlier, -, methods, ofMethods, rfl⟩ :=
      there
    intro id mem
    rcases List.mem_append.1 mem with mem | mem
    · exact restores_kind.of_required ofKind id mem
    · exact restores_places.of_optional (by simp) ofMethods id mem

/-- The places the tables of a package lead to. -/
def Package.places (package : Package) : List NodeId :=
  package.types.values ++ package.functions.values ++ package.vars.values ++
    package.consts.values

theorem restores_package :
    Restores Package.ofJson? Package.toJson (∀ id ∈ ·.places, id < UInt32.size) where
  read_write package fits := by
    have table (table : Table NodeId) (within : ∀ id ∈ table.values, id ∈ package.places) :
        places? (.places table) = some table :=
      restores_places.read_write table fun id mem => fits id (within id mem)
    have types := table package.types (by simp +contextual [Package.places])
    have functions := table package.functions (by simp +contextual [Package.places])
    have vars := table package.vars (by simp +contextual [Package.places])
    have consts := table package.consts (by simp +contextual [Package.places])
    have docComments := restores_strings.read_write package.docComments trivial
    have comments := restores_strings.read_write package.comments trivial
    have imports := restores_strings.read_write (NameSet.toList package.imports) trivial
    obtain ⟨path, sourcePath, name, docLines, lines, _, _, _, _, _⟩ := package
    cases sourcePath with
    | none =>
      simp [Package.ofJson?, Package.toJson, linesMember, List.lookup_append, List.lookup_cons,
        lookup_member?_of_ne, docComments, comments, types, functions, vars, consts, imports,
        NameSet.ofNames_toList]
    | some location =>
      simp [Package.ofJson?, Package.toJson, linesMember, List.lookup_append, List.lookup_cons,
        lookup_member?_of_ne, docComments, comments, types, functions, vars, consts, imports,
        NameSet.ofNames_toList, optionOf?]
  fits_of_read json package there := by
    simp only [Package.ofJson?, Option.bind_eq_bind, Option.bind_eq_some_iff, Option.pure_def,
      Option.some.injEq] at there
    obtain ⟨fields, -, path, -, sourcePath, -, name, -, docComments, -, comments, -, types, ofTypes,
      functions, ofFunctions, vars, ofVars, consts, ofConsts, imports, -, rfl⟩ := there
    intro id mem
    simp only [Package.places, List.mem_append] at mem
    rcases mem with ((mem | mem) | mem) | mem
    · exact restores_places.of_optional (by simp) ofTypes id mem
    · exact restores_places.of_optional (by simp) ofFunctions id mem
    · exact restores_places.of_optional (by simp) ofVars id mem
    · exact restores_places.of_optional (by simp) ofConsts id mem

/-! ## Atlases -/

namespace Atlas

/-- All places an atlas tells of. -/
def places (atlas : Atlas) : List NodeId :=
  atlas.packages.values.flatMap Package.places ++ atlas.nodes.toList.flatMap Node.places

theorem ofJson?_toJson {atlas : Atlas} (fits : ∀ id ∈ atlas.places, id < UInt32.size) :
    ofJson? atlas.toJson = some atlas := by
  have packages := restores_package.members.read_write atlas.packages.entries <|
    Restores.fits_entries fun package mem id inside =>
      fits id (List.mem_append_left _ (List.mem_flatMap.2 ⟨package, mem, inside⟩))
  have nodes := restores_node.list.read_write atlas.nodes.toList fun node mem id inside =>
    fits id (List.mem_append_right _ (List.mem_flatMap.2 ⟨node, mem, inside⟩))
  simp [ofJson?, toJson, List.lookup_cons, packages, nodes, Table.ofList_entries]

theorem fits_of_ofJson? {json : Json} {atlas : Atlas} (there : ofJson? json = some atlas) :
    ∀ id ∈ atlas.places, id < UInt32.size := by
  simp only [ofJson?, Option.bind_eq_bind, Option.bind_eq_some_iff, Option.pure_def,
    Option.some.injEq] at there
  obtain ⟨fields, -, packages, ofPackages, nodes, ofNodes, rfl⟩ := there
  have each : ∀ package ∈ (Table.ofList packages).values, ∀ id ∈ package.places,
      id < UInt32.size :=
    Restores.fits_ofList (restores_package.members.of_required ofPackages)
  intro id mem
  rcases List.mem_append.1 mem with mem | mem
  · obtain ⟨package, among, inside⟩ := List.mem_flatMap.1 mem
    exact each package among id inside
  · obtain ⟨node, among, inside⟩ := List.mem_flatMap.1 mem
    exact restores_node.list.of_required ofNodes node (by simpa using among) id inside

/-- The document that is written for what a document is read as. -/
def normalForm? (json : Json) : Option Json :=
  (ofJson? json).map toJson

/-- An atlas whose places fit 32 bits is read as it was written. Every document that is read
at all has a normal form, which is read as the same atlas and is its own normal form. The
directories in the records are texts; one in other bytes could not be written at all. -/
theorem document_restores :
    (∀ atlas : Atlas, (∀ id ∈ atlas.places, id < UInt32.size) →
      ofJson? atlas.toJson = some atlas) ∧
    ∀ json atlas, ofJson? json = some atlas →
      ∃ normal, normalForm? json = some normal ∧ ofJson? normal = some atlas ∧
        normalForm? normal = some normal := by
  refine ⟨fun atlas fits => ofJson?_toJson fits, ?_⟩
  intro json atlas there
  have again : ofJson? atlas.toJson = some atlas := ofJson?_toJson (fits_of_ofJson? there)
  refine ⟨atlas.toJson, ?_, again, ?_⟩
  · rw [normalForm?, there, Option.map_some]
  · rw [normalForm?, again, Option.map_some]

/-- A list type in a package without further fields, in a document that is given in full,
and in one that leaves out what it can and has a field that is not known. -/
theorem document_restores_slice :
    let atlas : Atlas := {
      packages := Table.ofList [("p", { path := "p", types := Table.ofList [("T", 0)] })]
      nodes := #[{ name := { package := "p", name := "T" }, kind := .slice 4294967295 }] }
    let json : Json := .object [
      ("nodes", .array [.object [
        ("name", .object [("package", .string "p"), ("name", .string "T")]),
        ("kind", .object [("elem", .nat 4294967295), ("kind", .string "Slice")]),
        ("age", .null)]]),
      ("packages", .object [("p", .object [
        ("path", .string "p"), ("types", .object [("T", .nat 0)])])])]
    (∀ id ∈ atlas.places, id < UInt32.size) ∧ ofJson? json = some atlas ∧
      ofJson? atlas.toJson = some atlas ∧ ∃ normal, normalForm? json = some normal ∧
        ofJson? normal = some atlas ∧ normalForm? normal = some normal := by
  intro atlas json
  have fits : ∀ id ∈ atlas.places, id < UInt32.size := by decide
  have there : ofJson? json = some atlas := by rfl
  exact ⟨fits, there, document_restores.1 atlas fits, document_restores.2 json atlas there⟩

end Atlas

end GoAtlas
