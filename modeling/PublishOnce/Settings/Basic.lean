/-
PublishOnce.Settings.Basic — what one run needs to know.

There are three sections. The source says whose revision is published, the
target says where to and from which directory, and the commit says how the
published revision is marked. Every field has a default, so an empty
configuration is a complete one.

Paths are kept as they were written. Only once it is known what they are
relative to are they made absolute, which is the business of
`PublishOnce.Settings.Load`.
-/
import PublishOnce.Path

namespace PublishOnce

/-- The source section: the repository that names the revision. -/
structure Settings.Source where
  /-- The repository whose latest commit is the revision. -/
  root : Path := "."
  deriving DecidableEq, Repr, Inhabited

structure Settings.Target where
  remote : String := "git@github.com:mirkootter/math-demo.git"
  /-- The branch that every publication overwrites. -/
  branch : String := "main"
  dir : Path := "demo/dist"
  /-- The directory in which the remote is cloned for a look at it. -/
  scratch : Path := "."
  deriving DecidableEq, Repr, Inhabited

/-- The commit section: how a publication is signed and marked. -/
structure Settings.Commit where
  /-- What stands before the revision in the message. -/
  messagePrefix : String := "Update to "
  name : String := "rustmath-bot"
  /-- The address of the committer, which may be empty. -/
  email : String := ""
  deriving DecidableEq, Repr, Inhabited

structure Settings where
  source : Settings.Source := {}
  target : Settings.Target := {}
  commit : Settings.Commit := {}
  deriving DecidableEq, Repr, Inhabited

/-- The message that marks a revision as published. -/
def commitMessage (messagePrefix revision : String) : String := messagePrefix ++ revision

/-- The message that marks a revision as published under these settings. -/
def Settings.commitMessage (settings : Settings) (revision : String) : String :=
  PublishOnce.commitMessage settings.commit.messagePrefix revision

end PublishOnce
