/-
PublishOnce.Git.Rehearsal — git as a script for trying publications out.

A rehearsal answers as it was told to and records what it was asked, failed
calls included. It can play a remote repository that remembers: the message of
a commit becomes the subject once it is pushed, so that two publications in a
row can be tried.
-/
import PublishOnce.Git.Basic

namespace PublishOnce

/-- What a rehearsed clone leaves behind. -/
inductive Rehearsal.Clone where
  /-- A directory with the beginnings of a repository. -/
  | dir
  | file
  | none
  deriving DecidableEq, Repr, Inhabited

inductive Rehearsal.Call where
  | shortHead (repo : Path)
  | cloneBare (remote : String) (into : Path)
  | lastSubject (bare : Path)
  | run (dir : Path) (args : List String)
  deriving DecidableEq, Repr, Inhabited

structure Rehearsal where
  head : String := "abc1234"
  headError : Option String := none
  subject : Option String := none
  subjectError : Option String := none
  cloneMakes : Rehearsal.Clone := .dir
  cloneError : Option String := none
  /-- A command whose arguments start like this fails. -/
  failRun : Option (List String) := none
  /-- Whether commits and pushes are remembered. -/
  track : Bool := false
  /-- The message of the latest commit that was remembered. -/
  message : Option String := none
  calls : List Rehearsal.Call := []
  deriving Inhabited

namespace Rehearsal

def record (script : Rehearsal) (call : Call) : Rehearsal :=
  { script with calls := script.calls ++ [call] }

/-- The script after a successful command. -/
def remember (script : Rehearsal) (args : List String) : Rehearsal :=
  if !script.track then script
  else if args.head? = some "commit" then { script with message := args[2]? }
  else if args.head? = some "push" then { script with subject := script.message }
  else script

def Clone.leave (made : Clone) (files : FileTree) (cwd : Location) (into : Path) : FileTree :=
  match made with
  | .dir => (files.makeDirs cwd (into.join "refs")).writeFile cwd (into.join "HEAD") []
  | .file => files.writeFile cwd into []
  | .none => files

def call (asked : Call) : Act Rehearsal Unit :=
  modify fun world => { world with git := world.git.record asked }

def failIf (text : Option String) : Act Rehearsal Unit :=
  match text with
  | some text => throw (.rehearsed text)
  | none => pure ()

def shortHead (repo : Path) : Act Rehearsal String := do
  call (.shortHead repo)
  failIf (← get).git.headError
  return (← get).git.head

def cloneBare (remote : String) (into : Path) : Act Rehearsal Unit := do
  call (.cloneBare remote into)
  modify fun world =>
    { world with files := world.git.cloneMakes.leave world.files world.cwd into }
  failIf (← get).git.cloneError

def lastSubject (bare : Path) : Act Rehearsal (Option String) := do
  call (.lastSubject bare)
  failIf (← get).git.subjectError
  return (← get).git.subject

def run (dir : Path) (args : List String) : Act Rehearsal Unit := do
  call (.run dir args)
  match (← get).git.failRun with
  | some start =>
    if start.isPrefixOf args then
      throw (.rehearsed ("git " ++ " ".intercalate args ++ " exited with 128"))
  | none => pure ()
  modify fun world => { world with git := world.git.remember args }

end Rehearsal

instance : Git Rehearsal where
  shortHead := Rehearsal.shortHead
  cloneBare := Rehearsal.cloneBare
  lastSubject := Rehearsal.lastSubject
  run := Rehearsal.run

end PublishOnce
