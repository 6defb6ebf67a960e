/-
PublishOnce.Publication.Compare — is the remote repository up to date?

It is if the subject of its latest commit is the message that would mark the
current revision, character by character. To find out, the repository is cloned
into the scratch directory, and the clone is removed again however the look at
it ended. Something that is already in the place of the clone is never touched.
-/
import PublishOnce.Git.Basic
import PublishOnce.Publication.CloneName

namespace PublishOnce

/-! ## 1. The subject of a remote repository -/

def clonePath (remote : String) (scratch : Path) : Path := scratch.join (cloneName remote)

/-- The world without the clone. That there is none is as good; a clone that cannot be removed is
worth a warning and no more. -/
def removeClone {G : Type} (path : Path) (world : World G) : World G :=
  match world.files.removeDir world.cwd path with
  | .ok files => { world with files }.debug "deploy" ("removed " ++ path.shown)
  | .error .notFound => world
  | .error reason =>
    world.say ⟨"warning", "failed to remove " ++ path.shown ++ ": " ++ reason.message, false⟩

/-- The subject of the latest commit of a remote repository, or `none` if it has no commits. -/
def remoteSubject {G : Type} [Git G] (remote : String) (scratch : Path) :
    Act G (Option String) := do
  let path := clonePath remote scratch
  let world ← get
  if world.files.pathExists world.cwd path then throw (.cloneDirOccupied path)
  Act.thenAlways (Git.cloneBare remote path >>= fun _ => Git.lastSubject path) (removeClone path)

/-! ## 2. The comparison -/

/-- What the remote repository holds and what it should hold. -/
structure Comparison where
  revision : String
  expected : String
  /-- The subject of the latest commit of the remote repository. -/
  remote : Option String
  deriving DecidableEq, Repr, Inhabited

/-- The two are equal; a repository without commits is never up to date. -/
def Comparison.isCurrent (comparison : Comparison) : Bool :=
  comparison.remote = some comparison.expected

/-- Compare the remote repository with the current revision. -/
def compare {G : Type} [Git G] (settings : Settings) : Act G Comparison := do
  let revision ← Git.shortHead settings.source.root
  Act.log "deploy" ("Current repository hash: " ++ revision)
  let remote ← remoteSubject settings.target.remote settings.target.scratch
  return { revision, expected := settings.commitMessage revision, remote }

end PublishOnce
