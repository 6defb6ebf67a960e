/-
PublishOnce.Publication.Publish — publish, or only say whether it is needed.

Both start with the same comparison. If the remote repository is up to date,
there is nothing to do. Otherwise one of them says so, and the other runs the
steps of the publication, in order, until one fails. Each step that is done and
the one that failed are reported.
-/
import PublishOnce.Publication.Compare
import PublishOnce.Publication.Step

namespace PublishOnce

/-- What came of a run. -/
inductive Outcome where
  /-- The remote repository carries the current revision. -/
  | upToDate
  /-- It does not, and publishing was not asked for. -/
  | pending
  /-- It did not, and now it does. -/
  | published
  deriving DecidableEq, Repr, Inhabited

def status {G : Type} [Git G] (settings : Settings) : Act G Outcome := do
  let comparison ← compare settings
  if comparison.isCurrent then
    Act.log "deploy" "Already up to date"
    return .upToDate
  match comparison.remote with
  | some subject =>
    Act.log "deploy"
      ("Deploy needed for " ++ comparison.revision ++ ", remote is at `" ++ subject ++ "`")
  | none =>
    Act.log "deploy" ("Deploy needed for " ++ comparison.revision ++ ", remote has no commits")
  return .pending

/-- Run one step in a directory and report on it. -/
def runStep {G : Type} [Git G] (dir : Path) (step : Step) : Act G Unit := do
  tryCatch (Git.run dir step.args) fun reason => do
    modify fun world => world.say (.failed step.text)
    throw (.during (.publishing step) reason)
  modify fun world => world.say (.done step.text)

/-- Run steps in order, up to the first that fails. -/
def runSteps {G : Type} [Git G] (dir : Path) : List Step → Act G Unit
  | [] => pure ()
  | step :: rest => do
    runStep dir step
    runSteps dir rest

/-- Make the output directory the content of the remote branch. -/
def pushOutput {G : Type} [Git G] (settings : Settings) (message : String) : Act G Unit := do
  let world ← get
  if !world.files.isDir world.cwd settings.target.dir then
    throw (.publishDirMissing settings.target.dir)
  runSteps settings.target.dir (publicationPlan settings message)

/-- Publish unless the remote repository is up to date. -/
def publish {G : Type} [Git G] (settings : Settings) : Act G Outcome := do
  let comparison ← compare settings
  if comparison.isCurrent then
    Act.log "deploy" "Already up to date"
    return .upToDate
  Act.log "deploy" "Deploy"
  pushOutput settings comparison.expected
  return .published

end PublishOnce
