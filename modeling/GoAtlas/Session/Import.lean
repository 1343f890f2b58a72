import GoAtlas.Session.Load

/-!
# Importing packages

Before a package is checked its imports are loaded and checked in the same way,
so a check only ever sees packages whose checks are over. A package is in
progress from before its imports until its check is over; an import of a package
in progress closes a cycle.

An import that fails is passed over where the failure is recoverable. The package
asked for has to succeed.

Each import on the way down belongs to a package that was not in progress before,
so the imports that are written anywhere bound the depth.
-/

namespace GoAtlas.Session

variable {U : Type} (env : Environment U)

/-- Imports the imports of a package, each as it is written, and gives the
packages they lead to. A package that names itself is not imported again. -/
def importAll (importOne : String → Task U (Option String)) (package : String) :
    List String → Table String → Task U (Table String)
  | [], found => return found
  | literal :: rest, found => do
    if literal = package then importAll importOne package rest found
    else
      match ← importOne literal with
      | some path => importAll importOne package rest (found.insert literal path)
      | none => importAll importOne package rest found

/-- Checks a package whose imports are found, and keeps the result. -/
def runCheck (package : String) (found : Table String) : Task U Unit := do
  let session ← get
  let files := session.sources.filesOf package
  let imported? (literal : String) : Option Checked :=
    (found.get? literal).bind session.checked?
  let literals := NameSet.toList (NameSet.ofNames (files.flatMap fun file => file.imports))
  let session := session.record (.check package (files.map fun file => file.path)
    (literals.map fun literal => (literal, (imported? literal).map fun checked => checked.path)))
  match env.frontend.check package files imported? with
  | .ok checked => set (session.setCheck package (.done checked))
  | .error (.errors message (some checked)) =>
    set (session.setCheck package (.incomplete checked message))
    throw (.typeCheck package message)
  | .error (.errors message none) =>
    set (session.setCheck package (.failed message))
    throw (.typeCheck package message)
  | .error (.unknownPackage path) =>
    let reason := "unknown to the type checker"
    set (session.setCheck package (.failed reason))
    throw (.packageNotFound path reason)
  | .error .unending =>
    set (session.setCheck package (.failed ""))
    throw .unending

/-- Checks a loaded package, its imports first. A check is made once: success is
kept, and a failure is reported again. -/
def check (importOne : String → Task U (Option String)) (package : String) : Task U Unit := do
  let session ← get
  match session.checks.get? package with
  | some (.done _) => return
  | some .inProgress => throw (.circularDependency package)
  | some (.incomplete _ message) | some (.failed message) => throw (.typeCheck package message)
  | none =>
    unless session.sources.hasPackage package do throw (.noFiles package)
    set (session.setCheck package .inProgress)
    let found ←
      try importAll importOne package (session.sources.importsOf package) ∅
      catch failure =>
        modify fun session => session.setCheck package (.failed failure.message)
        throw failure
    runCheck env package found

/-- Passes over a recoverable failure. -/
def passOver (value : α) (failure : Failure) : Task U α :=
  if failure.isRecoverable then return value else throw failure

/-- Imports the package at a location for another package, at most `depth` deep.
Nothing is given for a package that could not be loaded; one that could not be
checked is given all the same. -/
def importAt : Nat → String → Task U (Option String)
  | 0, location => throw (.circularDependency location)
  | depth + 1, location => do
    match ← try some <$> loaded env location catch failure => passOver none failure with
    | none => return none
    | some package =>
      try check env (importAt depth) package catch failure => passOver () failure
      return some package

/-- The imports written in the packages that can be located, that were located, and
whose files were read. -/
def literals (session : Session U) : List String :=
  env.literals ++ session.located.values.flatMap env.literalsOf
    ++ session.sources.imports.values.flatMap NameSet.toList

/-- No way of imports is longer: no import that is written somewhere comes up twice
on it. -/
def importDepth (session : Session U) : Nat :=
  (literals env session).length + 1

/-- Imports the package at a location because it was asked for. -/
def importRequested (depth : Nat) (location : String) : Task U Unit := do
  let package ← loaded env location
  check env (importAt env depth) package
  modify fun session => session.request package

end GoAtlas.Session
