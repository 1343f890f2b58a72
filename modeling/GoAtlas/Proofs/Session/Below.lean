import GoAtlas.Proofs.Locator.Children
import GoAtlas.Proofs.Session.Blame
import GoAtlas.Proofs.Session.Unbounded

/-!
# Packages below a directory

Where all packages below a directory are added, each directory there is asked for under a
path of its own, and a package that is not found or is without source is passed over. So
nothing but its path brings a directory in. It is brought in if the path of the package
above is canonical, and nothing in another directory goes under the path
(`requested_below`). Below a package in a vendor directory the paths lead elsewhere, and
what is there may be left out without a failure (`left_out_below_vendored`).
-/

namespace GoAtlas

/-! ## Directories with source -/

/-- Some file of the directory takes part, and is read for a package there. -/
def SourceAt (tree : FileTree) (tags : NameSet) (withTests : Bool) (place : Place) : Prop :=
  ∃ name ∈ tree.filesIn place, isSourceName name = true ∧
    (isTestName name = true → withTests = true) ∧
    ∃ content, tree.read (place.path.join name) = .ok content ∧ takesPart tags content = true

theorem Roots.mem_selected {tree : FileTree} {tags : NameSet} {dir : FilePath}
    {names kept : List String} (h : selected tree tags dir names = .ok kept) {name content : String}
    (mem : name ∈ names) (read : tree.read (dir.join name) = .ok content)
    (part : takesPart tags content = true) : name ∈ kept := by
  induction names generalizing kept with
  | nil => cases mem
  | cons first rest ih =>
    rw [selected_cons] at h
    split at h
    next => cases h
    next text found =>
      split at h
      next => cases h
      next others chosen =>
        cases h
        rcases List.mem_cons.1 mem with rfl | mem
        · cases found.symm.trans read
          rw [if_pos part]
          exact List.mem_cons_self
        · have later := ih chosen mem
          split
          · exact List.mem_cons_of_mem first later
          · exact later

namespace SourceAt

variable {tree : FileTree} {tags : NameSet} {withTests : Bool} {place : Place}
  (h : SourceAt tree tags withTests place)

include h

/-- Then a package there has a file to read. -/
theorem selection_ne_nil {names : List String} {located : Located}
    (described : Roots.Describes tree tags place names located) :
    located.selection withTests ≠ [] := by
  obtain ⟨name, there, source, test, content, read, part⟩ := h
  have chosen : name ∈ names :=
    Roots.mem_selected described.selected (List.mem_filter.2 ⟨there, source⟩) read part
  refine List.ne_nil_of_mem (a := name) ?_
  rw [Located.selection, described.files, described.testFiles, List.mem_append]
  cases kind : isTestName name with
  | false => exact .inl (List.mem_filter.2 ⟨chosen, by rw [kind]; rfl⟩)
  | true =>
    rw [if_pos (test kind)]
    exact .inr (List.mem_filter.2 ⟨chosen, kind⟩)

theorem admissible (tidy : tree.WellFormed) : place.path.Admissible := by
  obtain ⟨name, there, -, -, content, read, -⟩ := h
  exact FileTree.admissible_of_read (FileTree.isName_of_mem_filesIn tidy there) read

end SourceAt

/-! ## Directories of version control -/

theorem Place.fileName?_path {place : Place} (named : place.Named) :
    place.path.fileName? = place.getLast? := by
  rw [FilePath.fileName?, Place.components_path named, List.getLast?_cons, List.getLast?_map]
  cases place.getLast? <;> rfl

theorem ImportPath.inRecords_name {name : String} (named : IsName name) :
    inRecords ⟨name⟩ = recordDirectories.contains name := by
  have alone : Place.Named [name] := by
    intro other mem
    rwa [List.mem_singleton.1 mem]
  have components := Place.components_intercalate alone
  rw [String.intercalate_singleton] at components
  rw [inRecords, FilePath.names, components]
  exact Bool.or_false _

namespace Session

variable {U : Type} {env : Environment U} {roots : Roots} {origin session : Session U}
  {location : String} {place : Place} {located : Located}
variable {names : List String} {failure : Failure}

/-! ## Adding packages one by one -/

/-- The failure is passed over where packages are added one by one. -/
def isPassedOver (failure : Failure) : Bool :=
  isWithoutSource failure || failure.isPackageNotFound

theorem isRecoverable_of_isPassedOver (passed : isPassedOver failure = true) :
    failure.isRecoverable = true := by
  cases failure with
  | packageNotFound path reason => rfl
  | noSource location => rfl
  | noFiles package => rfl
  | _ => cases passed

theorem isPassedOver_eq_false (h : failure.isRecoverable = true → isPassedOver failure = false) :
    isPassedOver failure = false := by
  refine eq_false_of_ne_true fun passed => ?_
  rw [h (isRecoverable_of_isPassedOver passed)] at passed
  cases passed

theorem isPassedOver_of_misreads {dir : FilePath} (misreads : Misreads dir names failure) :
    isPassedOver failure = false := by
  refine isPassedOver_eq_false fun recoverable => ?_
  obtain ⟨_, -, message, rfl⟩ := misreads recoverable
  rfl

theorem perform_addEach_cons (depth : Nat) (rest : List String) :
    session.perform (addEach env depth (location :: rest)) =
      match session.perform (importRequested env depth location) with
      | (.ok _, after) => after.perform (addEach env depth rest)
      | (.error failure, after) =>
        if isPassedOver failure then after.perform (addEach env depth rest)
        else (.error failure, after) := by
  rw [addEach, perform_bind, perform_tryCatch]
  generalize session.perform (importRequested env depth location) = outcome
  obtain ⟨result, after⟩ := outcome
  cases result with
  | ok value => rfl
  | error failure =>
    unfold isPassedOver
    dsimp only
    by_cases passed : (isWithoutSource failure || failure.isPackageNotFound) = true
    · rw [if_pos passed, if_pos passed]
      rfl
    · rw [if_neg passed, if_neg passed]
      rfl

/-- What adding one of the packages brings about holds in the end, if nothing takes it back
and its failure is not one that is passed over. -/
theorem addEach_reaches {kept reached : Session U → Prop} {depth : Nat}
    (keeps : ∀ location, Keeps kept (importRequested env depth location))
    (lasts : ∀ location, Keeps reached (importRequested env depth location))
    (turn : ∀ session, kept session → Comes session (importRequested env depth location)
      (fun _ after => reached after) fun failure => isPassedOver failure = false)
    {locations : List String} (mem : location ∈ locations) (h : kept session)
    (ok : (session.perform (addEach env depth locations)).1 = .ok ()) :
    reached (session.perform (addEach env depth locations)).2 := by
  induction locations generalizing session with
  | nil => cases mem
  | cons first rest ih =>
    rw [perform_addEach_cons] at ok ⊢
    rcases List.mem_cons.1 mem with rfl | mem
    · have comes := turn session h
      unfold Comes at comes
      generalize session.perform (importRequested env depth location) = outcome at ok comes ⊢
      obtain ⟨result, after⟩ := outcome
      cases result with
      | ok value => exact keeps_addEach lasts rest after comes
      | error failure =>
        have fatal : isPassedOver failure = false := comes
        dsimp only at ok
        rw [fatal, if_neg Bool.false_ne_true] at ok
        cases ok
    · have later := keeps first session h
      generalize session.perform (importRequested env depth first) = outcome at ok later ⊢
      obtain ⟨result, after⟩ := outcome
      cases result with
      | ok value => exact ih mem later ok
      | error failure =>
        dsimp only at ok ⊢
        split at ok
        next passed =>
          rw [if_pos passed]
          exact ih mem later ok
        next => cases ok

/-! ## The package at a location -/

/-- What was located was found at its location, or stands under its own path. -/
def Placed (roots : Roots) (tree : FileTree) (session : Session U) : Prop :=
  ∀ location located, session.located.get? location = some located →
    (∃ place, roots.directory tree location = .ok (place, located.importPath)) ∨
      location = located.package

theorem directory_of_finds (search : env.locator = .search roots) {tags : NameSet}
    (found : env.Finds tags location located) :
    ∃ place, roots.directory env.tree location = .ok (place, located.importPath) := by
  rw [Environment.Finds, search] at found
  have answer := Roots.answer_of_locate found
  rcases roots.locate_cases env.tree tags location with
    ⟨fault, failed, other⟩ | ⟨found, eq, place, names, directory, -⟩
  · rw [failed, Located.answer] at answer
    split at answer
    · cases answer
    · exact absurd (Except.error.inj answer) (other located)
  · obtain rfl := Roots.answer_injective (eq.symm.trans answer)
    exact ⟨place, directory⟩

theorem lasting_placed (search : env.locator = .search roots) :
    Lasting env (Placed roots env.tree) :=
  lasting_located fun _ _ _ found => ⟨.inl (directory_of_finds search found), .inr rfl⟩

theorem keeps_placed (search : env.locator = .search roots) (tidy : env.tree.WellFormed)
    (depth : Nat) (location : String) :
    Keeps (fun session => Sound env roots origin [] session ∧ Placed roots env.tree session)
      (importRequested env depth location) := by
  rintro session ⟨sound, placed⟩
  exact ⟨keeps_importRequested search tidy depth location session sound,
    (lasting_placed search).keeps_importRequested depth location session placed⟩

/-- The location is found with the import path of the directory at the place. That directory
has source, and nothing in another one goes under these paths. -/
structure Pinned (env : Environment U) (roots : Roots) (origin : Session U) (location : String)
    (place : Place) : Prop where
  named : place.Named
  found : ∃ other, roots.directory env.tree location =
    .ok (other, roots.pathAt env.tree location place)
  source : SourceAt env.tree origin.tags origin.config.includeTestFiles place
  alone : ∀ other, roots.Leads env.tree origin.tags other →
    other.package ∈ roots.pathsAt env.tree location place → other.dir = place.path

namespace Pinned

variable (pinned : Pinned env roots origin location place)
  (search : env.locator = .search roots) (tidy : env.tree.WellFormed)
  (sound : Sound env roots origin [] session) (placed : Placed roots env.tree session)

include pinned search placed in
theorem path_of_leadsTo (leads : LeadsTo env session location located) :
    located.package ∈ roots.pathsAt env.tree location place := by
  have found : (∃ place, roots.directory env.tree location = .ok (place, located.importPath)) ∨
      location = located.package := by
    rcases leads with there | ⟨-, found⟩
    · exact placed location located there
    · exact .inl (directory_of_finds search found)
  rcases found with ⟨other, found⟩ | rfl
  · obtain ⟨first, own⟩ := pinned.found
    have path := (Prod.mk.inj (Except.ok.inj (own.symm.trans found))).2
    rw [Roots.pathsAt, path]
    exact List.mem_cons_of_mem _ List.mem_cons_self
  · exact List.mem_cons_self

include pinned search sound placed in
theorem comes_load :
    Comes session (load env location)
      (fun package _ => package ∈ roots.pathsAt env.tree location place)
      fun failure => isPassedOver failure = false := by
  have locating : Comes session (locate env location)
      (fun located after => LeadsTo env session location located ∧
        roots.Leads env.tree origin.tags located ∧ Sound env roots origin [] after)
      fun failure => isPassedOver failure = false := by
    obtain ⟨later, leads⟩ := sound_locate search sound location
    refine ((comes_locate session location).mono fun failure lost => ?_).and
      fun located ok => ⟨leads located ok, later⟩
    refine isPassedOver_eq_false fun recoverable => ?_
    obtain ⟨path, searched, reason, missing, -⟩ := lost recoverable
    obtain ⟨first, own⟩ := pinned.found
    rw [search] at missing
    exact absurd missing (Roots.locate_ne_notFound own)
  refine locating.bind ?_
  rintro located between ⟨reached, leads, sound⟩
  have under := pinned.path_of_leadsTo search placed reached
  have settling : Comes between (settle located.package located.dir)
      (fun _ after => True ∧ Sound env roots origin [] after)
      fun failure => isPassedOver failure = false := by
    obtain ⟨later, -⟩ := sound_settle sound leads located.package
    exact ((comes_settle between _ _).mono fun _ => isPassedOver_eq_false).and fun _ _ => later
  refine settling.bind ?_
  rintro ⟨⟩ settled ⟨-, sound⟩
  have nonempty : located.selection origin.config.includeTestFiles ≠ [] := by
    obtain ⟨other, names, described⟩ := leads.describes
    have dir := pinned.alone located leads under
    rw [described.dir] at dir
    obtain rfl := Place.path_injective described.named pinned.named dir
    exact pinned.source.selection_ne_nil described
  unfold Comes
  rw [perform_get_bind]
  rw [sound.config, ← Located.selection, if_neg (by simpa using nonempty)]
  have reading := @comes_parseFiles U env located.package located.dir _ _
    (List.Subset.refl (located.selection origin.config.includeTestFiles)) settled
  exact (reading.mono fun _ => isPassedOver_of_misreads).bind fun _ _ _ => under

include pinned search tidy sound placed in
theorem comes_loaded :
    Comes session (loaded env location)
      (fun package after => package ∈ roots.pathsAt env.tree location place ∧
        after.sources.hasPackage package = true)
      fun failure => isPassedOver failure = false := by
  have loads : Comes session (loaded env location)
      (fun package _ => package ∈ roots.pathsAt env.tree location place)
      fun failure => isPassedOver failure = false := by
    have loads := pinned.comes_load search sound placed
    unfold Comes at loads ⊢
    obtain same | ⟨located, there, -, same⟩ := perform_loaded env session location
    · rwa [same]
    · rw [same]
      exact pinned.path_of_leadsTo search placed (.inl there)
  obtain ⟨later, files⟩ := sound_loaded search tidy sound location
  exact loads.and fun package ok => (later.dense package).2 (files package ok)

include pinned search tidy sound placed in
/-- The package is added under one of its paths. If that fails, the failure is not one that
is passed over. -/
theorem comes_importRequested (knows : env.frontend.KnowsAll) (depth : Nat) :
    Comes session (importRequested env depth location)
      (fun _ after => ∃ package ∈ roots.pathsAt env.tree location place,
        after.requested.contains package = true)
      fun failure => isPassedOver failure = false := by
  refine (pinned.comes_loaded search tidy sound placed).bind ?_
  rintro package between ⟨under, has⟩
  have checking : Comes between (check env (importAt env depth) package) (fun _ _ => True)
      fun failure => isPassedOver failure = false := by
    refine (comes_check knows (unrecoverable_importAt env depth) between package).mono ?_
    rintro failure ⟨faults, files⟩
    refine isPassedOver_eq_false fun recoverable => ?_
    obtain rfl | ⟨message, rfl⟩ := faults recoverable
    · exact absurd rfl (files has)
    · rfl
  refine checking.bind fun _ checked _ => ?_
  exact ⟨package, under, (NameSet.contains_add _ _ _).2 (.inl rfl)⟩

end Pinned

/-- What was requested stays so. -/
theorem lasting_requested (env : Environment U) (paths : List String) :
    Lasting env fun session => ∃ package ∈ paths, session.requested.contains package = true where
  remember _ _ _ h _ := h
  settle _ _ _ h _ := h
  record _ _ h := h
  addFile _ _ _ h _ := h
  undecided _ _ _ h _ := h
  conclude _ _ _ _ h := h
  request session other h := by
    obtain ⟨package, mem, there⟩ := h
    exact ⟨package, mem, (NameSet.contains_add _ _ _).2 (.inr there)⟩
  addTags _ _ h := h

/-- What was located stays so. -/
theorem outlasts_located (env : Environment U) (location : String) (located : Located) :
    Outlasts env fun session => session.located.get? location = some located where
  loaded other session there := (loadsTo_loaded session other).kept there
  undecided _ _ _ h _ := h
  conclude _ _ _ _ h := h
  request _ _ h := h
  addTags _ _ h := h

/-! ## The directories below -/

/-- A directory below is listed, if no directory of version control is on the way. -/
theorem mem_directoriesBelow (closed : env.tree.Closed) {below : List Place}
    (listed : directoriesBelow env place.path = .ok below) (proper : names ≠ [])
    (there : env.tree.entryAt? (place ++ names) = some .directory)
    (clear : ∀ name ∈ place.getLast?.toList ++ names, name ∉ ImportPath.recordDirectories) :
    names ∈ below := by
  have above := closed.above there
  have named := (closed.named_of_entryAt? there).1
  cases resolved : env.tree.resolve place.path with
  | error fault =>
    rw [directoriesBelow, resolved] at listed
    cases listed
  | ok other =>
    obtain rfl := closed.eq_of_resolve_path above resolved
    have entered : ImportPath.inRecords ((other.path.fileName?.map FilePath.mk).getD other.path) =
        false := by
      rw [Place.fileName?_path (closed.named_of_entryAt? above).1]
      cases last : other.getLast? with
      | none =>
        rw [List.getLast?_eq_none_iff.1 last]
        decide +kernel
      | some name =>
        rw [last] at clear
        have mem := List.mem_of_getLast? last
        refine (ImportPath.inRecords_name (named name (List.mem_append_left _ mem))).trans ?_
        simpa using clear name List.mem_cons_self
    rw [directoriesBelow, resolved] at listed
    dsimp only at listed
    rw [entered, Bool.false_and, if_neg Bool.false_ne_true] at listed
    cases listed
    obtain ⟨name, rest, rfl⟩ := List.exists_cons_of_ne_nil proper
    have skips : (name :: rest).any (fun name => ImportPath.inRecords ⟨name⟩) = false := by
      refine List.any_eq_false.2 fun name mem => ?_
      rw [ImportPath.inRecords_name (named name (List.mem_append_right _ mem))]
      simpa using clear name (List.mem_append_right _ mem)
    have rest_eq : other.isPrefixOf? (other ++ name :: rest) = some (name :: rest) :=
      List.isPrefixOf?_eq_some_iff_append_eq.2 rfl
    rw [FileTree.directoriesBelow, List.mem_mergeSort, List.mem_filterMap]
    refine ⟨(other ++ name :: rest, .directory), FileTree.mem_of_entryAt? (by simp) there, ?_⟩
    dsimp only
    rw [rest_eq]
    exact if_pos ⟨rfl, by rw [skips]; exact Bool.false_ne_true⟩

/-- A failure that comes to nothing was passed over. -/
theorem perform_catch_ok {β : Type} {task : Task U Unit} {passes : Failure → Bool}
    {next : Unit → Task U β} {value : β}
    (ok : (session.perform (tryCatch task (fun failure =>
      if passes failure then pure () else throw failure) >>= next)).1 = .ok value) :
    session.perform (tryCatch task (fun failure =>
      if passes failure then pure () else throw failure) >>= next) =
        (session.perform task).2.perform (next ()) := by
  rw [perform_bind, perform_tryCatch] at ok ⊢
  generalize session.perform task = outcome at ok ⊢
  obtain ⟨result, after⟩ := outcome
  cases result with
  | ok value => rfl
  | error failure =>
    dsimp only at ok ⊢
    by_cases passed : passes failure = true
    · rw [if_pos passed]
      rfl
    · rw [if_neg passed] at ok
      cases ok

/-- Where all is added, the package at the location was located and its directories listed;
then they are added one by one. -/
theorem addRecursive_ok (ok : (session.perform (addRecursive env location)).1 = .ok ()) :
    let depth := importDepth env session
    let between := (session.perform (importRequested env depth location)).2
    ∃ root below, between.located.get? location = some root ∧
      directoriesBelow env root.dir = .ok below ∧
      session.perform (addRecursive env location) =
        between.perform (addEach env depth (below.map fun names =>
          ImportPath.join root.package (String.intercalate "/" names))) := by
  intro depth between
  rw [addRecursive, perform_get_bind] at ok ⊢
  rw [perform_catch_ok ok, perform_get_bind]
  rw [perform_catch_ok ok, perform_get_bind] at ok
  cases there : between.located.get? location with
  | none =>
    rw [there] at ok
    cases ok
  | some root =>
    rw [there] at ok
    dsimp only at ok ⊢
    cases listed : directoriesBelow env root.dir with
    | error failure =>
      rw [listed] at ok
      cases ok
    | ok below => exact ⟨root, below, rfl, listed, rfl⟩

/-- What is asked of a directory below the package at `place`. -/
structure Reachable (env : Environment U) (origin : Session U) (place : Place)
    (names : List String) : Prop where
  below : names ≠ []
  there : env.tree.entryAt? (place ++ names) = some .directory
  /-- Neither the directory of the package nor any on the way is one of version control. -/
  clear : ∀ name ∈ place.getLast?.toList ++ names, name ∉ ImportPath.recordDirectories
  source : SourceAt env.tree origin.tags origin.config.includeTestFiles (place ++ names)

/-- What is asked of the path of a directory: that it can be looked for below every root, and
that no package in another directory goes under it. -/
structure Unshared (env : Environment U) (roots : Roots) (origin : Session U) (path : String)
    (place : Place) : Prop where
  admissible : ∀ root ∈ roots.searchPaths, (root.join path).Admissible
  alone : ∀ other, roots.Leads env.tree origin.tags other →
    other.package ∈ roots.pathsAt env.tree path place → other.dir = place.path

/-- Such a directory is pinned to its path below the import path of the package. -/
theorem Reachable.pinned {found importPath : String} (reachable : Reachable env origin place names)
    (closed : env.tree.Closed) (rooted : ∀ root ∈ roots.searchPaths, root.text ≠ "")
    (directory : roots.directory env.tree found = .ok (place, importPath))
    (unshared : Unshared env roots origin
      (ImportPath.join importPath (String.intercalate "/" names)) (place ++ names)) :
    Pinned env roots origin (ImportPath.join importPath (String.intercalate "/" names))
      (place ++ names) where
  named := (closed.named_of_entryAt? reachable.there).1
  found := Roots.directory_join closed rooted directory reachable.below reachable.there
    (reachable.source.admissible closed.toWellFormed) unshared.admissible
  source := reachable.source
  alone := unshared.alone

/-- Over a closed tree, after any commands: where all packages below a location are added
without a failure, the location leads to a directory. If the path of the package there is
canonical, each directory below it that has source, and no directory of version control on
the way, is the directory of a package that is requested; provided that nothing in another
directory goes under the path of that directory. This is said of trees, whose names are texts:
a name in other bytes would be left out of the path that is asked for. -/
theorem requested_below (search : env.locator = .search roots) (closed : env.tree.Closed)
    (rooted : ∀ root ∈ roots.searchPaths, root.text ≠ "") (knows : env.frontend.KnowsAll)
    (config : Config) (commands : List Command) (location : String)
    (ok : (((start config).runAll env commands).perform (addRecursive env location)).1 = .ok ()) :
    let after := (((start config).runAll env commands).perform (addRecursive env location)).2
    ∃ root place, after.located.get? location = some root ∧ root.dir = Place.path place ∧
      env.tree.entryAt? place = some .directory ∧
      (root.package = root.importPath → ∀ names, Reachable env (start config) place names →
          Unshared env roots (start config)
            (ImportPath.join root.importPath (String.intercalate "/" names)) (place ++ names) →
          ∃ package located, after.requested.contains package = true ∧
            ReadFrom env roots (start config) after package located ∧
            located.dir = Place.path (place ++ names)) := by
  intro after
  have tidy := closed.toWellFormed
  have sound : Sound env roots (start config) [] ((start config).runAll env commands) :=
    runAll_keeps (keeps_task search tidy) (sound_start env roots config) commands
  have placed : Placed roots env.tree ((start config).runAll env commands) := by
    refine runAll_keeps (lasting_placed search).keeps_task ?_ commands
    intro location located there
    cases there
  have later : Sound env roots (start config) [] after :=
    keeps_task search tidy (.addRecursive location) _ sound
  obtain ⟨root, below, there, listed, performed⟩ := addRecursive_ok ok
  have added : after = _ := congrArg Prod.snd performed
  rw [performed] at ok
  generalize importDepth env ((start config).runAll env commands) = depth at there ok added
  obtain ⟨sound, placed⟩ := keeps_placed search tidy depth location _ ⟨sound, placed⟩
  generalize (((start config).runAll env commands).perform
    (importRequested env depth location)).2 = between at there ok added sound placed
  have leads := sound.located location root there
  obtain ⟨found, place, chosen, directory, described⟩ := leads.directory
  have here := (Roots.directory_eq_ok directory).2
  rw [described.dir] at listed
  refine ⟨root, place, ?_, described.dir, here, ?_⟩
  · rw [added]
    exact keeps_addEach ((outlasts_located env location root).keeps_importRequested depth) _
      between there
  · intro canonical names reachable unshared
    rw [canonical] at added ok
    have pinned := reachable.pinned closed rooted directory unshared
    have mem := List.mem_map_of_mem (f := fun names =>
      ImportPath.join root.importPath (String.intercalate "/" names))
      (mem_directoriesBelow closed listed reachable.below reachable.there reachable.clear)
    obtain ⟨package, under, requested⟩ := addEach_reaches (keeps_placed search tidy depth)
      ((lasting_requested env _).keeps_importRequested depth)
      (fun session h => pinned.comes_importRequested search tidy h.1 h.2 knows depth) mem
      ⟨sound, placed⟩ ok
    rw [← added] at requested
    obtain ⟨located, read⟩ := later.files package (later.requested package requested)
    refine ⟨package, located, requested, read, unshared.alone located read.leads ?_⟩
    rw [read.canonical]
    exact under

/-! ## Two trees -/

/-- A package below a directory without source, next to a directory of version control. -/
@[irreducible] def nestedTree : FileTree :=
  (({} : FileTree).put ⟨"/w/a/b/b.go"⟩ (.text "package b\n")).put
    ⟨"/w/a/.git/h.go"⟩ (.text "package h\n")

def nestedRoots : Roots :=
  { searchPaths := [⟨"/w"⟩], workingDir := ⟨"/w"⟩ }

def nestedSource : Environment SourceTree :=
  { frontend := Source.frontend, locator := .search nestedRoots, tree := nestedTree }

theorem closed_nestedTree : nestedTree.Closed where
  toWellFormed := by
    unfold nestedTree
    exact (FileTree.wellFormed_empty.put _ _).put _ _
  parents := by decide +kernel
  short := by decide +kernel

theorem reachable_nested : Reachable nestedSource (start {}) ["w", "a"] ["b"] where
  below := List.cons_ne_nil _ _
  there := by decide +kernel
  clear := by decide +kernel
  source := ⟨"b.go", by decide +kernel, by decide +kernel, by decide +kernel, "package b\n",
    by decide +kernel, by decide +kernel⟩

/-- The package stands in one directory. -/
theorem dir_nested {other : Located}
    (leads : nestedRoots.Leads nestedTree (start {} : Session SourceTree).tags other)
    (path : other.package = "a/b") :
    other.dir = Place.path ["w", "a", "b"] := by
  have plain : ∀ entry ∈ nestedTree.entries, "vendor" ∉ entry.1 := by decide +kernel
  have looked : (nestedRoots.directory nestedTree "a/b").map (fun found => found.1.path) =
      .ok (Place.path ["w", "a", "b"]) := by
    decide +kernel
  have listed : ∀ entry ∈ ([], Entry.directory) :: nestedTree.entries,
      ImportPath.canonical ((nestedRoots.importPath? nestedTree (Place.path entry.1)).getD
          (Place.path entry.1).text) = "a/b" →
        Place.path entry.1 = Place.path ["w", "a", "b"] := by
    decide +kernel
  rw [← path] at looked listed
  exact leads.dir_eq plain looked listed

theorem unshared_nested : Unshared nestedSource nestedRoots (start {}) "a/b" ["w", "a", "b"] where
  admissible root mem := by
    cases List.mem_singleton.1 mem
    exact ⟨by decide +kernel, by decide +kernel⟩
  alone other leads mem := by
    have paths : nestedRoots.pathsAt nestedSource.tree "a/b" ["w", "a", "b"] = ["a/b", "a/b"] := by
      decide +kernel
    rw [paths] at mem
    exact dir_nested leads (by simpa using mem)

/-- The package is added, and the directory of version control is not. -/
theorem requested_below_nested :
    let after := ((start {}).perform (addRecursive nestedSource "./a")).2
    ((start {}).perform (addRecursive nestedSource "./a")).1 = .ok () ∧
      Reachable nestedSource (start {}) ["w", "a"] ["b"] ∧
      Unshared nestedSource nestedRoots (start {}) "a/b" ["w", "a", "b"] ∧
      (∃ package located, after.requested.contains package = true ∧
        ReadFrom nestedSource nestedRoots (start {}) after package located ∧
        located.dir = Place.path ["w", "a", "b"]) ∧
      after.requested.toList = ["a/b"] := by
  intro after
  have ok : ((start {}).perform (addRecursive nestedSource "./a")).1 = .ok () := by
    decide +kernel
  have located : after.located.get? "./a" =
      some { importPath := "a", dir := ⟨"/w/a"⟩, files := [], testFiles := [] } := by
    decide +kernel
  refine ⟨ok, reachable_nested, unshared_nested, ?_, by decide +kernel⟩
  obtain ⟨root, place, there, dir, here, all⟩ := @requested_below SourceTree nestedSource
    nestedRoots rfl closed_nestedTree (by decide) Source.frontend_knowsAll {} [] "./a" ok
  cases located.symm.trans there
  obtain rfl : ["w", "a"] = place := by
    have named := (closed_nestedTree.named_of_entryAt? here).1
    have named' := (closed_nestedTree.named_of_entryAt? reachable_nested.there).1
    refine Place.path_injective (fun name mem => named' name (List.mem_append_left _ mem)) named ?_
    rw [← dir]
    decide +kernel
  have child : ImportPath.join "a" (String.intercalate "/" ["b"]) = "a/b" := by decide +kernel
  have leads := all (by decide +kernel) ["b"] reachable_nested
  rw [child] at leads
  exact leads unshared_nested

/-- A package below one that is in a vendor directory. -/
@[irreducible] def copyTree : FileTree :=
  ({} : FileTree).put ⟨"/app/vendor/lib/x/x.go"⟩ (.text "package x\n\ntype X int\n")

def copySource : Environment SourceTree :=
  topSource copyTree

/-- The packages below are looked for under the path without the vendor directory. Where
there is nothing they are left out, and there is no failure. -/
theorem left_out_below_vendored :
    let after := ((start {}).perform (addRecursive copySource "app/vendor/lib")).2
    ((start {}).perform (addRecursive copySource "app/vendor/lib")).1 = .ok () ∧
      (after.located.get? "app/vendor/lib").map Located.dir =
        some (Place.path ["app", "vendor", "lib"]) ∧
      Reachable copySource (start {}) ["app", "vendor", "lib"] ["x"] ∧
      after.requested.toList = [] := by
  intro after
  refine ⟨by decide +kernel, by decide +kernel, ?_, by decide +kernel⟩
  exact
    { below := List.cons_ne_nil _ _
      there := by decide +kernel
      clear := by decide +kernel
      source := ⟨"x.go", by decide +kernel, by decide +kernel, by decide +kernel,
        "package x\n\ntype X int\n", by decide +kernel, by decide +kernel⟩ }

end Session

end GoAtlas
