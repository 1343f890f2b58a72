import Mathlib.Data.List.TakeWhile
import GoAtlas.Proofs.Session.Task
import GoAtlas.Proofs.Table

/-!
# Reading the files of a package

Reading goes through the names in order and stops at the first file that cannot
be read; what was read before that stays. A second reading passes over the files
that are there and stops at the same place, so the files of the package are, after
one reading or many, those up to the first that cannot be read.
-/

namespace GoAtlas

variable {U : Type}

namespace SourceIndex

variable {index : SourceIndex U} {file : SourceFile U} {package : String}

theorem files_insert (fresh : index.containsFile package file.path = false) :
    (index.insert package file).files =
      index.files.insert package (index.filesOf package ++ [file]) := by
  rw [insert, fresh]
  rfl

theorem filesOf_insert (fresh : index.containsFile package file.path = false) (other : String) :
    (index.insert package file).filesOf other =
      if other = package then index.filesOf package ++ [file] else index.filesOf other := by
  rw [filesOf, files_insert fresh, Table.get?_insert]
  split <;> rfl

/-- A package is in the index exactly if it has a file. -/
def Dense (index : SourceIndex U) : Prop :=
  ∀ package, index.hasPackage package = true ↔ index.filesOf package ≠ []

theorem dense_empty : Dense ({} : SourceIndex U) := by
  intro package
  simp [hasPackage, filesOf, Table.contains_iff]

theorem Dense.insert (h : index.Dense) (package : String) (file : SourceFile U) :
    (index.insert package file).Dense := by
  cases fresh : index.containsFile package file.path with
  | true => simpa [SourceIndex.insert, fresh] using h
  | false =>
    intro other
    rw [filesOf_insert fresh, hasPackage, files_insert fresh, Table.contains, Table.get?_insert]
    by_cases same : other = package
    · simp [same]
    · rw [if_neg same, if_neg same]
      exact h other

end SourceIndex

namespace Environment

variable (env : Environment U)
variable {dir : FilePath} {file : SourceFile U} {names rest : List String} {name : String}

/-- The file with a path, if its text is there and the front end reads it. -/
def file? (path : FilePath) : Option (SourceFile U) :=
  match env.tree.read path with
  | .error _ => none
  | .ok content =>
    match env.frontend.parse path content with
    | .error _ => none
    | .ok file => some { file with path }

/-- The files of a directory up to the first that cannot be read. -/
def readable (dir : FilePath) (names : List String) : List (SourceFile U) :=
  (names.takeWhile fun name => (env.file? (dir.join name)).isSome).filterMap
    fun name => env.file? (dir.join name)

variable {env}

theorem read_of_file? {path : FilePath} (h : env.file? path = some file) :
    ∃ text read, env.tree.read path = .ok text ∧ env.frontend.parse path text = .ok read ∧
      file = { read with path } := by
  unfold file? at h
  split at h
  next => cases h
  next text there =>
    split at h
    next => cases h
    next read parsed => exact ⟨text, read, there, parsed, (Option.some.inj h).symm⟩

theorem path_of_file? {path : FilePath} (h : env.file? path = some file) : file.path = path := by
  obtain ⟨_, _, -, -, rfl⟩ := read_of_file? h
  rfl

theorem readable_cons_some (h : env.file? (dir.join name) = some file) :
    env.readable dir (name :: rest) = file :: env.readable dir rest := by
  simp [readable, h]

theorem readable_cons_none (h : env.file? (dir.join name) = none) :
    env.readable dir (name :: rest) = [] := by
  simp [readable, h]

/-- Nothing is left out where every file can be read. -/
theorem readable_of_all (all : ∀ name ∈ names, (env.file? (dir.join name)).isSome = true) :
    env.readable dir names = names.filterMap fun name => env.file? (dir.join name) := by
  rw [readable, List.takeWhile_eq_self_iff.2 all]

theorem mem_readable_of_all (all : ∀ name ∈ names, (env.file? (dir.join name)).isSome = true)
    (mem : name ∈ names) : ∃ file ∈ env.readable dir names, file.path = dir.join name := by
  obtain ⟨file, found⟩ := Option.isSome_iff_exists.1 (all name mem)
  refine ⟨file, ?_, path_of_file? found⟩
  rw [readable_of_all all]
  exact List.mem_filterMap.2 ⟨name, mem, found⟩

/-- What is read is a file of the directory that can be read. -/
theorem name_of_mem_readable (mem : file ∈ env.readable dir names) :
    ∃ name ∈ names, env.file? (dir.join name) = some file := by
  obtain ⟨name, taken, found⟩ := List.mem_filterMap.1 mem
  exact ⟨name, (List.takeWhile_prefix _).subset taken, found⟩

end Environment

namespace Session

variable {env : Environment U} {package : String} {dir : FilePath} {session : Session U}
variable {file : SourceFile U} {present passed : List (SourceFile U)} {name : String}

/-- Only files of the package were added, and calls of the front end recorded. -/
structure Reads (package : String) (before after : Session U) : Prop where
  frame : ∃ sources calls, after = { before with sources, calls }
  others : ∀ other, other ≠ package → after.sources.filesOf other = before.sources.filesOf other
  dense : before.sources.Dense → after.sources.Dense

theorem Reads.refl (session : Session U) : Reads package session session :=
  ⟨⟨_, _, rfl⟩, fun _ _ => rfl, id⟩

theorem Reads.trans {first second third : Session U} (h : Reads package first second)
    (h' : Reads package second third) : Reads package first third where
  frame := by
    obtain ⟨_, _, rfl⟩ := h.frame
    obtain ⟨sources, calls, rfl⟩ := h'.frame
    exact ⟨sources, calls, rfl⟩
  others other ne := (h'.others other ne).trans (h.others other ne)
  dense before := h'.dense (h.dense before)

theorem reads_record (call : Call) : Reads package session (session.record call) :=
  ⟨⟨_, _, rfl⟩, fun _ _ => rfl, id⟩

theorem reads_addFile (fresh : session.sources.containsFile package file.path = false) :
    Reads package session (session.addFile package file) where
  frame := ⟨_, _, rfl⟩
  others other ne := by rw [addFile, SourceIndex.filesOf_insert fresh, if_neg ne]
  dense before := before.insert package file

theorem perform_parseFile (path : FilePath) (content : String) :
    session.perform (parseFile env package path content) =
      if session.sources.containsFile package path then (.ok (), session)
      else
        match env.frontend.parse path content with
        | .error message => (.error (.parse path message), session.record (.parse path))
        | .ok file =>
          (.ok (), (session.record (.parse path)).addFile package { file with path }) := by
  rw [parseFile, perform_get_bind]
  split
  · rfl
  · rw [perform_bind, perform_set]
    dsimp only
    cases env.frontend.parse path content <;> rfl

theorem perform_parseFiles_nil :
    session.perform (parseFiles env package dir []) = (.ok (), session) := rfl

theorem perform_parseFiles_cons (name : String) (rest : List String) :
    session.perform (parseFiles env package dir (name :: rest)) =
      match env.tree.read (dir.join name) with
      | .error fault => (.error (.fileSystem (dir.join name) fault.message), session)
      | .ok content =>
        match session.perform (parseFile env package (dir.join name) content) with
        | (.ok _, after) => after.perform (parseFiles env package dir rest)
        | (.error failure, after) => (.error failure, after) := by
  show session.perform
      (match env.tree.read (dir.join name) with
      | .error fault =>
        (throw (.fileSystem (dir.join name) fault.message) : Task U Unit) >>= fun _ =>
          parseFiles env package dir rest
      | .ok content =>
        parseFile env package (dir.join name) content >>= fun _ =>
          parseFiles env package dir rest) = _
  cases env.tree.read (dir.join name) with
  | error fault => rfl
  | ok content =>
    dsimp only
    rw [perform_bind]
    cases session.perform (parseFile env package (dir.join name) content) with
    | mk result after => cases result <;> rfl

/-- A file that is there already is passed over. -/
theorem perform_parseFiles_present (found : env.file? (dir.join name) = some file)
    (present : session.sources.containsFile package (dir.join name) = true) (rest : List String) :
    session.perform (parseFiles env package dir (name :: rest)) =
      session.perform (parseFiles env package dir rest) := by
  obtain ⟨_, _, read, -, -⟩ := Environment.read_of_file? found
  simp only [perform_parseFiles_cons, read, perform_parseFile, present, if_true]

/-- A new file is read and added. -/
theorem perform_parseFiles_new (found : env.file? (dir.join name) = some file)
    (fresh : session.sources.containsFile package (dir.join name) = false) (rest : List String) :
    session.perform (parseFiles env package dir (name :: rest)) =
      ((session.record (.parse (dir.join name))).addFile package file).perform
        (parseFiles env package dir rest) := by
  obtain ⟨_, _, read, parsed, rfl⟩ := Environment.read_of_file? found
  simp only [perform_parseFiles_cons, read, perform_parseFile, fresh, Bool.false_eq_true, if_false,
    parsed]

/-- Reading stops at a file that cannot be read. -/
theorem perform_parseFiles_stop (missing : env.file? (dir.join name) = none)
    (fresh : session.sources.containsFile package (dir.join name) = false) (rest : List String) :
    ∃ failure calls, session.perform (parseFiles env package dir (name :: rest)) =
      (.error failure, { session with calls }) := by
  unfold Environment.file? at missing
  split at missing
  next fault read =>
    simp only [perform_parseFiles_cons, read]
    exact ⟨_, session.calls, rfl⟩
  next content read =>
    split at missing
    next message parsed =>
      simp only [perform_parseFiles_cons, read, perform_parseFile, fresh, Bool.false_eq_true,
        if_false, parsed]
      exact ⟨_, _, rfl⟩
    next => cases missing

/-- Reading succeeds where every file can be read. -/
theorem parseFiles_of_all {names : List String}
    (all : ∀ name ∈ names, (env.file? (dir.join name)).isSome = true) :
    (session.perform (parseFiles env package dir names)).1 = .ok () := by
  induction names generalizing session with
  | nil => rfl
  | cons name rest ih =>
    obtain ⟨file, found⟩ := Option.isSome_iff_exists.1 (all name List.mem_cons_self)
    have others : ∀ other ∈ rest, (env.file? (dir.join other)).isSome = true :=
      fun other mem => all other (List.mem_cons_of_mem name mem)
    by_cases present : session.sources.containsFile package (dir.join name) = true
    · rw [perform_parseFiles_present found present]
      exact ih others
    · rw [perform_parseFiles_new found (eq_false_of_ne_true present)]
      exact ih others

theorem containsFile_eq_false {path : FilePath}
    (h : ∀ file ∈ session.sources.filesOf package, file.path.same path = false) :
    session.sources.containsFile package path = false := by
  rw [SourceIndex.containsFile, List.any_eq_false]
  intro file mem
  rw [h file mem]
  exact Bool.false_ne_true

theorem containsFile_of_mem (mem : file ∈ session.sources.filesOf package) :
    session.sources.containsFile package file.path = true :=
  List.any_eq_true.2 ⟨file, mem, beq_iff_eq.2 rfl⟩

theorem filesOf_addFile (fresh : session.sources.containsFile package file.path = false) :
    (session.addFile package file).sources.filesOf package =
      session.sources.filesOf package ++ [file] :=
  (SourceIndex.filesOf_insert fresh package).trans (if_pos rfl)

/-- One step of reading: a file that can be read is the next file of the package,
whether it is new or was there before. -/
theorem perform_parseFiles_step {rest : List String} (found : env.file? (dir.join name) = some file)
    (holds : session.sources.filesOf package = passed ++ present)
    (partly : present = [] ∨ present = file :: env.readable dir rest)
    (before : ∀ old ∈ passed, old.path.same (dir.join name) = false) :
    ∃ after left, session.perform (parseFiles env package dir (name :: rest)) =
        after.perform (parseFiles env package dir rest)
      ∧ Reads package session after
      ∧ after.sources.filesOf package = (passed ++ [file]) ++ left
      ∧ (left = [] ∨ left = env.readable dir rest) := by
  have path := Environment.path_of_file? found
  rcases partly with rfl | rfl
  · rw [List.append_nil] at holds
    have fresh : session.sources.containsFile package (dir.join name) = false :=
      containsFile_eq_false fun old mem => before old (holds ▸ mem)
    have fresh' : (session.record (.parse (dir.join name))).sources.containsFile package file.path
        = false := path ▸ fresh
    refine ⟨_, [], perform_parseFiles_new found fresh rest,
      (reads_record _).trans (reads_addFile fresh'), ?_, .inl rfl⟩
    rw [filesOf_addFile fresh', List.append_nil]
    exact congrArg (· ++ [file]) holds
  · have here : file ∈ session.sources.filesOf package := by simp [holds]
    refine ⟨session, _, perform_parseFiles_present found (path ▸ containsFile_of_mem here) rest,
      .refl session, ?_, .inr rfl⟩
    rw [holds, List.append_assoc]
    rfl

/-- Reading brings the package to the files up to the first that cannot be read,
whether none or all of them were there before. If it succeeds, all can be read. -/
theorem perform_parseFiles {names : List String}
    (holds : session.sources.filesOf package = passed ++ present)
    (partly : present = [] ∨ present = env.readable dir names)
    (before : ∀ name ∈ names, ∀ old ∈ passed, old.path.same (dir.join name) = false)
    (distinct : names.Pairwise fun name other => (dir.join name).same (dir.join other) = false) :
    Reads package session (session.perform (parseFiles env package dir names)).2
      ∧ (session.perform (parseFiles env package dir names)).2.sources.filesOf package
        = passed ++ env.readable dir names
      ∧ ((session.perform (parseFiles env package dir names)).1 = .ok () →
        ∀ name ∈ names, (env.file? (dir.join name)).isSome = true) := by
  -- The files that were passed grow by one with each name; those still present shrink.
  induction names generalizing session passed present with
  | nil =>
    rw [perform_parseFiles_nil]
    have none : present = [] := partly.elim id id
    rw [none] at holds
    exact ⟨.refl session, holds, fun _ _ mem => nomatch mem⟩
  | cons name rest ih =>
    obtain ⟨first, distinct⟩ := List.pairwise_cons.1 distinct
    cases found : env.file? (dir.join name) with
    | none =>
      rw [Environment.readable_cons_none found] at partly ⊢
      have none : present = [] := partly.elim id id
      rw [none] at holds
      have fresh : session.sources.containsFile package (dir.join name) = false := by
        rw [List.append_nil] at holds
        exact containsFile_eq_false fun old mem => before name List.mem_cons_self old (holds ▸ mem)
      obtain ⟨failure, calls, stops⟩ := perform_parseFiles_stop found fresh rest
      rw [stops]
      exact ⟨⟨⟨_, _, rfl⟩, fun _ _ => rfl, id⟩, holds, fun ok => nomatch ok⟩
    | some file =>
      rw [Environment.readable_cons_some found] at partly ⊢
      obtain ⟨after, left, goes, reads, holds', partly'⟩ :=
        perform_parseFiles_step found holds partly (before name List.mem_cons_self)
      have before' : ∀ other ∈ rest, ∀ old ∈ passed ++ [file],
          old.path.same (dir.join other) = false := by
        intro other mem old mem'
        rcases List.mem_append.1 mem' with mem' | mem'
        · exact before other (List.mem_cons_of_mem name mem) old mem'
        · rw [List.mem_singleton.1 mem', Environment.path_of_file? found]
          exact first other mem
      obtain ⟨reads', files, done⟩ := ih holds' partly' before' distinct
      rw [goes]
      refine ⟨reads.trans reads', ?_, ?_⟩
      · rw [files, List.append_assoc]
        rfl
      · intro ok other mem
        rcases List.mem_cons.1 mem with rfl | mem
        · rw [found]
          rfl
        · exact done ok other mem

end Session

end GoAtlas
