/-
PublishOnce.Repository.Layout — the files of a bare repository.

A bare repository is a directory with `HEAD`, with its loose references and its
objects in directories of their own, and perhaps with packed references. This
module writes one; `PublishOnce.Repository.Head` reads it. A repository with a
single commit needs no object besides it, since nothing here looks into trees.
-/
import PublishOnce.Repository.Ref

namespace PublishOnce.Repository

/-- What goes into a bare repository. -/
structure Layout where
  head : Bytes := Bytes.ofString "ref: refs/heads/main\n"
  /-- The loose references, by the paths of their files. -/
  refs : List (String × Bytes) := []
  /-- The content of `packed-refs`, if there is to be one. -/
  packed : Option Bytes := none
  objects : List (Id × Object) := []
  deriving Inhabited

namespace Layout

/-! ## 1. Layouts with and without a commit -/

/-- The id of the tree that the commits here are for. -/
def treeId : Id := .ofNat 1

/-- The id of the commit of a layout that has one. -/
def commitId : Id := .ofNat 2

/-- The signature of the commits here, which nobody in particular has made. -/
def signature : String := "nobody <> 0 +0000"

def commitOf (message : Bytes) : Object where
  kind := .commit
  data :=
    Bytes.ofString
      ("tree " ++ treeId.digits ++ "\nauthor " ++ signature ++ "\ncommitter " ++ signature
        ++ "\n\n") ++ message

def branchRef (branch : String) : String := "refs/heads/" ++ branch

def headOf (branch : String) : Bytes := Bytes.ofString ("ref: " ++ branchRef branch ++ "\n")

def unborn (branch : String) : Layout where
  head := headOf branch

/-- A repository whose branch has one commit, which carries a message. -/
def single (branch : String) (message : Bytes) : Layout where
  head := headOf branch
  refs := [(branchRef branch, Bytes.ofString (commitId.digits ++ "\n"))]
  objects := [(commitId, commitOf message)]

/-! ## 2. The files -/

/-- A tree with one more file, and with the directories that lead to it. -/
def plantFile (tree : FileTree) (place : Location) (content : Bytes) : FileTree :=
  match tree.makeWay [] place.dropLast with
  | some (grown, _) => grown.put place (.file content)
  | none => tree

def tree (layout : Layout) : FileTree :=
  let bare : FileTree :=
    ⟨[(["HEAD"], .file layout.head), (["refs"], .dir), (["refs", "heads"], .dir),
      (["objects"], .dir)]⟩
  let bare := layout.refs.foldl (fun tree (name, content) =>
    plantFile tree (placeOf name) content) bare
  let bare := layout.objects.foldl (fun tree (id, object) =>
    plantFile tree id.place object.stored) bare
  match layout.packed with
  | some content => bare.put ["packed-refs"] (.file content)
  | none => bare

end Layout

end PublishOnce.Repository
