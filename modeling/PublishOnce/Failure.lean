/-
PublishOnce.Failure — everything that can end a run.

A failure is its cause, and the words are made from it at the end. Where a
failure happened in the middle of something larger, that activity is put around
it, and the message about the activity comes first.
-/
import PublishOnce.Program.Failure
import PublishOnce.Publication.Step
import PublishOnce.Repository.Head
import PublishOnce.Settings.Diagnostic
import PublishOnce.Settings.Document

namespace PublishOnce

/-! ## 1. Causes -/

/-- Something larger that a failure happened in. -/
inductive Activity where
  | resolvingHead (repo : Path)
  | cloning (remote : String)
  | publishing (step : Step)
  deriving DecidableEq, Repr

/-- What can end a run. -/
inductive Failure where
  | configUnreadable (path : Path)
  /-- The configuration file says no settings. -/
  | configMalformed (reason : Settings.DocumentError)
  /-- The configuration file that was asked for is not there. -/
  | configMissing (path : Path)
  | configInvalid (diagnostics : List Settings.Diagnostic)
  | gitMissing
  | command (reason : Program.Failure)
  | noRevision (repo : Path)
  /-- The clone does not yield a subject. -/
  | repository (reason : Repository.ReadError)
  /-- Something is in the place of the clone. -/
  | cloneDirOccupied (path : Path)
  | publishDirMissing (path : Path)
  /-- A rehearsal was told to fail here. -/
  | rehearsed (text : String)
  /-- A failure in the middle of something. -/
  | during (activity : Activity) (reason : Failure)
  deriving Inhabited

/-! ## 2. Words -/

def Activity.message : Activity → String
  | .resolvingHead repo => "Failed to resolve HEAD in " ++ repo.shown
  | .cloning remote => "Failed to clone `" ++ remote ++ "`"
  | .publishing step => "publish step `" ++ step.label ++ "` failed"

namespace Failure

def message : Failure → String
  | .configUnreadable path => "IO error when reading `" ++ path.shown ++ "`"
  | .configMalformed _ => "Config file parsing error"
  | .configMissing path => "Config file `" ++ path.shown ++ "` not found"
  | .configInvalid diagnostics => Settings.report diagnostics
  | .gitMissing => "`git` not found in PATH"
  | .command reason => reason.message
  | .noRevision repo => "`git rev-parse` printed no revision for " ++ repo.shown
  | .repository reason => reason.message
  | .cloneDirOccupied path =>
    "clone path `" ++ path.shown
      ++ "` already exists, remove it or pick another scratch directory"
  | .publishDirMissing path =>
    "publish directory `" ++ path.shown ++ "` does not exist or is not a directory"
  | .rehearsed text => text
  | .during activity _ => activity.message

/-- The messages about the causes, the outermost first. What is behind a malformed configuration or
an unreadable repository is not told. -/
def causes : Failure → List String
  | .configUnreadable _ => ["stream did not contain valid UTF-8"]
  | .gitMissing => ["cannot find binary path"]
  | .command reason => reason.causes
  | .during _ reason => reason.message :: reason.causes
  | _ => []

end Failure

end PublishOnce
