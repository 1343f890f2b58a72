import GoAtlas.Config
import GoAtlas.Failure
import GoAtlas.Frontend

/-!
# Sessions

A session is what a run knows so far: the packages it located, the files it read,
how their checks stand, and which packages were asked for. A task changes the
session and may fail; what it learned before it failed stays.
-/

namespace GoAtlas

/-- Where the check of a package stands. -/
inductive CheckState where
  | inProgress
  | done (checked : Checked)
  /-- The check failed, but something was resolved. -/
  | incomplete (checked : Checked) (message : String)
  | failed (message : String)

/-- What is known of a package, complete or not. -/
def CheckState.checked? : CheckState → Option Checked
  | .done checked | .incomplete checked _ => some checked
  | .inProgress | .failed _ => none

/-- A call of the front end. -/
inductive Call where
  | parse (path : FilePath)
  /-- A check, with the files and, for each import, the path of the package it
  leads to. -/
  | check (package : String) (files : List FilePath) (imports : List (String × Option String))

/-- What a run knows so far. -/
structure Session (U : Type) where
  config : Config
  /-- The tags that hold, those of the platform included. -/
  tags : NameSet
  /-- The packages located, by every location they were asked for at. -/
  located : Table Located := ∅
  /-- The directory of each package, by canonical path. -/
  directories : Table FilePath := ∅
  sources : SourceIndex U := {}
  checks : Table CheckState := ∅
  /-- The packages that were asked for and checked without errors. -/
  requested : NameSet := ∅
  /-- The calls of the front end, in order. -/
  calls : List Call := []

/-- What a run works with. -/
structure Environment (U : Type) where
  frontend : Frontend U
  locator : Locator
  tree : FileTree

namespace Environment

variable {U : Type} (env : Environment U)

/-- The imports written in the file at a path, as the front end reads them. -/
def literalsAt (path : FilePath) : List String :=
  match env.tree.read path with
  | .error _ => []
  | .ok content =>
    match env.frontend.parse path content with
    | .error _ => []
    | .ok file => file.imports

/-- The imports written in the files of a package. -/
def literalsOf (located : Located) : List String :=
  (located.files ++ located.testFiles).flatMap fun name => env.literalsAt (located.dir.join name)

/-- The imports written in the packages that can be located. Below search roots these
have their files from the directories of the tree. -/
def literals : List String :=
  match env.locator with
  | .search _ =>
    (env.tree.entries.filter fun (_, entry) => entry.isFile).flatMap fun (place, _) =>
      env.literalsAt ((Place.path place.dropLast).join (place.getLast?.getD ""))
  | .listed packages =>
    packages.values.flatMap fun
      | .ok located | .error (.noSource located) => env.literalsOf located
      | .error _ => []

end Environment

/-- A step of a run. -/
abbrev Task (U : Type) := ExceptT Failure (StateM (Session U))

namespace Session

variable {U : Type}

/-- The session a run starts with. -/
def start (config : Config) : Session U :=
  { config, tags := NameSet.addAll (Constraint.defaultTags config.platform) config.buildTags }

/-- The session with more tags, for packages that are located from now on. -/
def addTags (session : Session U) (tags : List String) : Session U :=
  { session with config := session.config.addTags tags, tags := NameSet.addAll session.tags tags }

/-- The canonical path of the package at a location that was located before. -/
def knownPackage? (session : Session U) (location : String) : Option String :=
  (session.located.get? location).map fun located => located.package

/-- What is known of a package by its check. -/
def checked? (session : Session U) (package : String) : Option Checked :=
  (session.checks.get? package).bind CheckState.checked?

/-- The session with a located package, under the location that was asked for
and, if that is free, under the canonical path. -/
def remember (session : Session U) (location : String) (located : Located) : Session U :=
  { session with
    located := (session.located.insert location located).insertIfNew located.package located }

/-- The session with the state of a check. -/
def setCheck (session : Session U) (package : String) (state : CheckState) : Session U :=
  { session with checks := session.checks.insert package state }

/-- The session with one more call. -/
def record (session : Session U) (call : Call) : Session U :=
  { session with calls := session.calls ++ [call] }

/-- The session with one more file. -/
def addFile (session : Session U) (package : String) (file : SourceFile U) : Session U :=
  { session with sources := session.sources.insert package file }

/-- The session with one more package asked for. -/
def request (session : Session U) (package : String) : Session U :=
  { session with requested := NameSet.add session.requested package }

/-- The result of a task, with the session after it. -/
def perform (session : Session U) (task : Task U α) : Except Failure α × Session U :=
  task.run.run session

end Session

end GoAtlas
