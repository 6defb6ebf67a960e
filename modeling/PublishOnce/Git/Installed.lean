/-
PublishOnce.Git.Installed — the git program of a shell.

Whatever touches the network or a working tree is a command for the program,
which is asked for by its name and is the one that the shell finds under it.
The subject of a clone is read from the files of the clone instead, without a
command.
-/
import PublishOnce.Git.Basic
import PublishOnce.Program.Command

namespace PublishOnce

namespace Git

open Program (Command Shell Chatter)

def program : Bytes := "git"

def locate : Act Shell Unit := do
  if !(← get).git.programs.contains program then throw .gitMissing

/-- A command for git; its talk about progress is not repeated. -/
def command (args : List Bytes) (dir : Option Path := none) : Command :=
  { program, args, dir, chatter := .git }

/-- Ask for the short form of the revision. A blank answer is none. -/
def installedShortHead (repo : Path) : Act Shell String := do
  let output ← Act.during (.resolvingHead repo)
    (command ["rev-parse", "--short", "HEAD"] repo).run
  let revision := Text.trim (Text.Utf8.decodeLossy output.out)
  if revision.isEmpty then throw (.noRevision repo)
  return revision

def installedCloneBare (remote : String) (into : Path) : Act Shell Unit := do
  let _ ← Act.during (.cloning remote) (command ["clone", "--bare", remote, into.bytes]).run

/-- Read the subject of the latest commit from the files of a clone. -/
def installedLastSubject (bare : Path) : Act Shell (Option String) := do
  let world ← get
  match Repository.open? world.files world.cwd bare with
  | none => throw (.repository (.notOpened bare))
  | some repository =>
    match repository.lastSubject with
    | .ok subject => return subject
    | .error reason => throw (.repository reason)

def installedRun (dir : Path) (args : List String) : Act Shell Unit := do
  let _ ← (command (args.map Bytes.ofString) dir).run

end Git

instance : Git Program.Shell where
  shortHead := Git.installedShortHead
  cloneBare := Git.installedCloneBare
  lastSubject := Git.installedLastSubject
  run := Git.installedRun

end PublishOnce
