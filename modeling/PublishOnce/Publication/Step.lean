/-
PublishOnce.Publication.Step — the commands that publish a directory.

Publishing makes the directory a fresh repository with one commit and pushes it
over the remote branch. The steps are data, so that what will be done can be
looked at before any of it is done. Every argument is passed as it is, an empty
one included; only the text of a step puts quotes around what would be misread.
-/
import PublishOnce.Settings.Basic
import PublishOnce.Text.Blank
import PublishOnce.Text.Quoted

namespace PublishOnce

/-- One command of a publication. -/
inductive Step where
  /-- Make the directory a repository with a branch. -/
  | init (branch : String)
  | userName (name : String)
  | userEmail (email : String)
  | stageAll
  | commit (message : String)
  | addRemote (url : String)
  | forcePush (branch : String)
  deriving DecidableEq, Repr, Inhabited

namespace Step

/-- The name under which the repository to push to is known. -/
def remoteName : String := "origin"

def args : Step → List String
  | .init branch => ["init", "-b", branch]
  | .userName name => ["config", "user.name", name]
  | .userEmail email => ["config", "user.email", email]
  | .stageAll => ["add", "-A"]
  | .commit message => ["commit", "-m", message]
  | .addRemote url => ["remote", "add", remoteName, url]
  | .forcePush branch => ["push", "-f", remoteName, branch]

def label : Step → String
  | .init _ => "init"
  | .userName _ => "user.name"
  | .userEmail _ => "user.email"
  | .stageAll => "add"
  | .commit _ => "commit"
  | .addRemote _ => "remote add"
  | .forcePush _ => "push"

def text (step : Step) : String := Text.Quoted.commandLine Text.isBlank ("git" :: step.args)

end Step

/-- The steps that publish with a message, in order. -/
def publicationPlan (settings : Settings) (message : String) : List Step :=
  [.init settings.target.branch, .userName settings.commit.name, .userEmail settings.commit.email,
   .stageAll, .commit message, .addRemote settings.target.remote,
   .forcePush settings.target.branch]

end PublishOnce
