/-
PublishOnce.Repository.Head — the latest commit of a repository, and how it is
found.

`HEAD` names a branch or, seldom, an object. A branch that does not exist yet
means that there are no commits; this is the only way to the answer `none`.
Everything else that goes wrong is an error: a repository that cannot be
opened, a reference that cannot be read, a chain of references that breaks off,
runs in a circle or is too long, an object that is missing or no commit, a
commit that is not well formed.

How a repository keeps what an id stands for is left out. Each object is in a
file of its own here, as it is once it has been decompressed; there are no packs
of objects and none that are borrowed from another repository. The configuration
file of the clone is not read either: whatever it says, the references and the
objects are those that are there. References may be packed, and this is not left
out (`PublishOnce.Repository.Packed`).
-/
import PublishOnce.Repository.Commit
import PublishOnce.Repository.Ref
import PublishOnce.Repository.Subject

namespace PublishOnce

/-! ## 1. What can go wrong -/

/-- Why a repository does not yield a subject. -/
inductive Repository.ReadError where
  | notOpened (path : Path)
  /-- `HEAD`, or the branch that it names, cannot be read. -/
  | headUnreadable
  /-- The branch does not lead to a commit. -/
  | headUnresolved
  /-- The commit is not well formed. -/
  | messageUndecodable
  deriving DecidableEq, Repr

def Repository.ReadError.message : Repository.ReadError → String
  | .notOpened path => "Failed to open repository " ++ path.shown
  | .headUnreadable => "Failed to read HEAD"
  | .headUnresolved => "Failed to resolve HEAD commit"
  | .messageUndecodable => "Failed to decode commit message"

namespace Repository

/-! ## 2. Opening -/

/-- What a directory must have in it to be a repository. A directory `HEAD` is none. -/
def isRepository (files : FileTree) : Bool :=
  (files.get? ["HEAD"]).any (· ≠ .dir) && files.isDirAt ["refs"] && files.isDirAt ["objects"]

/-- Where a repository is looked for: at the path itself if its name says that it is one, otherwise
in its `.git` first. -/
def candidates (path : Path) : List Path :=
  if path.fileName? = some (".git" : Bytes) ∨ path.extension? = some ("git" : Bytes) then [path]
  else [path.join ".git", path]

def open? (files : FileTree) (cwd : Location) (path : Path) : Option Repository :=
  (candidates path).findSome? fun candidate =>
    match files.resolve cwd candidate with
    | .ok place =>
      let below := files.below place
      if files.isDirAt place && isRepository below then some ⟨below⟩ else none
    | .error _ => none

/-! ## 3. From `HEAD` to an object -/

/-- What `HEAD` leads to at the first step. -/
inductive Head where
  | unborn
  | branch (ref : Ref)
  | detached (id : Id)
  deriving DecidableEq, Repr, Inhabited

/-- Read `HEAD`, and the branch that it names. -/
def head (repository : Repository) : Except RefError Head := do
  match ← repository.find "HEAD" with
  | none => .error .unreadable
  | some ref =>
    match ref.target with
    | .direct id => return .detached id
    | .symbolic name =>
      match ← repository.find name with
      | none => return .unborn
      | some ref => return .branch ref

/-- How many references may be followed one after the other. -/
def followLimit : Nat := 4

/-- Follow references to an object. The first argument is the number of references that may still be
followed; a circle uses it up like any chain that is too long. -/
def follow (repository : Repository) : Nat → Target → Option Id
  | _, .direct id => some id
  | 0, .symbolic _ => none
  | more + 1, .symbolic name =>
    match repository.find name with
    | .ok (some ref) => follow repository more ref.target
    | _ => none

def object? (repository : Repository) (id : Id) : Option Object :=
  match repository.files.get? id.place with
  | some (.file content) => Object.ofStored? content
  | _ => none

/-- Follow tags to the commit that they are for. The first argument is the number of tags that may
still be followed. -/
def peel (repository : Repository) : Nat → Id → Option Bytes
  | 0, _ => none
  | more + 1, id =>
    match repository.object? id with
    | some ⟨.commit, data⟩ => some data
    | some ⟨.tag, data⟩ => (tagged? data).bind (peel repository more)
    | _ => none

/-- The commit behind an id. No chain of tags is longer than there are files. -/
def commitBehind? (repository : Repository) (id : Id) : Option Bytes :=
  repository.peel (repository.files.entries.length + 1) id

/-- The commit behind a branch. What a packed reference says about the end of its tag is believed
without a look at the tag, and must be a commit. -/
def commitBehindRef? (repository : Repository) (ref : Ref) : Option Bytes :=
  match ref.peeled with
  | some id => repository.peel 1 id
  | none => (repository.follow followLimit ref.target).bind repository.commitBehind?

/-! ## 4. The subject -/

/-- The subject of the commit with the given bytes. -/
def subjectOf (data : Bytes) : Except ReadError String :=
  match Commit.message? data with
  | some message => .ok (Subject.ofMessage message)
  | none => .error .messageUndecodable

def subjectOfFound (commit : Option Bytes) : Except ReadError String :=
  match commit with
  | some data => subjectOf data
  | none => .error .headUnresolved

/-- The subject of the latest commit, or `none` if there are no commits. -/
def lastSubject (repository : Repository) : Except ReadError (Option String) :=
  match repository.head with
  | .error _ => .error .headUnreadable
  | .ok .unborn => .ok none
  | .ok (.branch ref) => (subjectOfFound (repository.commitBehindRef? ref)).map some
  | .ok (.detached id) => (subjectOfFound (repository.commitBehind? id)).map some

end Repository

end PublishOnce
