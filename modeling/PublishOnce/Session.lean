/-
PublishOnce.Session — a run from the first word of the command line to the last
line of output.

The settings are loaded before git is looked for, and git is looked for before
anything is asked of it. So a run whose settings are unfit has not started
anything.
-/
import PublishOnce.CommandLine.Parse
import PublishOnce.Git.Installed
import PublishOnce.Publication.Publish
import PublishOnce.Report
import PublishOnce.Settings.Load

namespace PublishOnce.Session

open Program (Shell)

def perform (verb : CommandLine.Verb) (settings : Settings) : Act Shell Outcome :=
  match verb with
  | .publish => publish settings
  | .status => status settings

/-- Do what a command line says; the settings in use come with the outcome. -/
def act (line : CommandLine) : Act Shell (Settings × Outcome) := do
  modify fun world => { world with verbose := line.verbose }
  let world ← get
  let settings ← Settings.load world.cwd.path line.config line.overrides
  Git.locate
  let outcome ← perform line.verb settings
  return (settings, outcome)

/-- How a program ends: its exit code and its two outputs. -/
structure Ending where
  code : Nat
  out : String
  err : String
  deriving DecidableEq, Repr, Inhabited

/-- The end of a run: the journal, and behind its notices the report on a failure. -/
def ending (outcome : Except Failure (Settings × Outcome)) (world : World Shell) : Ending :=
  match outcome with
  | .ok _ => ⟨0, world.journal.out, world.journal.err⟩
  | .error failure => ⟨1, world.journal.out, world.journal.err ++ failure.report⟩

/-- The exit code when no run takes place: zero if the words asked for exactly that. -/
def haltCode : CommandLine.Halt → Nat
  | .helpWanted | .versionWanted => 0
  | _ => 2

/-- What is printed when no run takes place. -/
def haltText : CommandLine.Halt → String
  | .versionWanted => CommandLine.versionText
  | _ => ""

/-- The whole program: words in, a new world and an ending out. -/
def run (words : List Bytes) (world : World Shell) : Ending × World Shell :=
  match CommandLine.parse words with
  | .error halt => (⟨haltCode halt, haltText halt, ""⟩, world)
  | .ok line =>
    let (outcome, world) := act line world
    (ending outcome world, world)

end PublishOnce.Session
