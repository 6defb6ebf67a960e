/-
PublishOnce.Git.Basic — what publishing needs of git.

Four things: the revision of a repository, a bare clone of a remote one, the
subject of the latest commit in such a clone, and running one git command in a
directory. Publishing is written for anything that has these four.
-/
import PublishOnce.World

namespace PublishOnce

/-- The four things that publishing needs of git. -/
class Git (G : Type) where
  /-- The short form of the revision of a repository. -/
  shortHead : Path → Act G String
  /-- Clone a remote repository, bare, into a directory. -/
  cloneBare : String → Path → Act G Unit
  /-- The subject of the latest commit of a bare clone, or `none` if there are no commits. -/
  lastSubject : Path → Act G (Option String)
  run : Path → List String → Act G Unit

end PublishOnce
