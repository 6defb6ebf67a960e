/-
PublishOnce.FileTree — the file system, as a table of places.

A place (`Location`) is the list of names that lead to it from the root, so two
paths lead to the same entry exactly when they resolve to the same list. A tree
is a table from places to entries; the root is always a directory. There are no
links, which is what makes a place and its list of names the same thing.

Operations come in two layers. On places they are table operations: look up,
put, take a whole subtree out. On paths they first walk, and walking fails as
a system call does: on a missing name, or on a name below something that is no
directory.
-/
import PublishOnce.Path

namespace PublishOnce

/-! ## 1. Places and entries -/

/-- The names that lead to an entry from the root. -/
abbrev Location := List Bytes

def Location.path (place : Location) : Path := ⟨Path.render .root place⟩

/-- What stands at a place. -/
inductive Entry where
  | file (content : Bytes)
  /-- A directory; its members are entries of their own. -/
  | dir
  deriving DecidableEq, Repr, Inhabited

inductive OsError where
  | notFound
  | permissionDenied
  | notADirectory
  deriving DecidableEq, Repr

def OsError.message : OsError → String
  | .notFound => "No such file or directory (os error 2)"
  | .permissionDenied => "Permission denied (os error 13)"
  | .notADirectory => "Not a directory (os error 20)"

/-- Entries by place. -/
structure FileTree where
  /-- The table; the first row for a place counts. -/
  entries : List (Location × Entry) := []
  deriving DecidableEq, Repr, Inhabited

namespace FileTree

/-! ## 2. Operations on places -/

/-- The entry at a place. The root needs no row. -/
def get? (tree : FileTree) (place : Location) : Option Entry :=
  if place = [] then some .dir else tree.entries.lookup place

def isDirAt (tree : FileTree) (place : Location) : Bool := tree.get? place = some .dir

/-- The tree with an entry at a place, whatever stood there. -/
def put (tree : FileTree) (place : Location) (entry : Entry) : FileTree :=
  ⟨tree.entries.filter (fun row => row.1 ≠ place) ++ [(place, entry)]⟩

/-- The tree without a place and everything below it. -/
def removeAt (tree : FileTree) (place : Location) : FileTree :=
  ⟨tree.entries.filter fun row => !place.isPrefixOf row.1⟩

/-- What is below a place, as a tree of its own. -/
def below (tree : FileTree) (place : Location) : FileTree :=
  ⟨tree.entries.filterMap fun row =>
    if place.isPrefixOf row.1 && place.length < row.1.length then
      some (row.1.drop place.length, row.2)
    else none⟩

/-- The tree with the entries of `branch` put below a place, which becomes a directory. -/
def graftAt (tree : FileTree) (place : Location) (branch : FileTree) : FileTree :=
  branch.entries.foldl (fun grown row => grown.put (place ++ row.1) row.2) (tree.put place .dir)

/-! ## 3. Walking along a path -/

def segments (path : Path) : List Bytes := Text.splitOn Path.slash path.bytes

/-- The segment that goes up. -/
def up : Bytes := [Path.dot, Path.dot]

/-- Where walking along a path starts: at the root or at the working directory. -/
def startOf (cwd : Location) (path : Path) : Location := if path.isAbsolute then [] else cwd

/-- Follow segments from a place, or the reason why one cannot be followed. Every segment, also an
empty one behind a separator, asks for a directory to look in. -/
def walk (tree : FileTree) : Location → List Bytes → Except OsError Location
  | place, [] => .ok place
  | place, segment :: rest =>
    if !tree.isDirAt place then .error .notADirectory
    else if Path.isInert segment then tree.walk place rest
    else if segment = up then tree.walk place.dropLast rest
    else if (tree.get? (place ++ [segment])).isNone then .error .notFound
    else tree.walk (place ++ [segment]) rest

/-- The place that an existing path leads to. The empty path leads nowhere. -/
def resolve (tree : FileTree) (cwd : Location) (path : Path) : Except OsError Location :=
  if path.bytes.isEmpty then .error .notFound
  else tree.walk (startOf cwd path) (segments path)

def entry? (tree : FileTree) (cwd : Location) (path : Path) : Option Entry :=
  match tree.resolve cwd path with
  | .ok place => tree.get? place
  | .error _ => none

def pathExists (tree : FileTree) (cwd : Location) (path : Path) : Bool :=
  (tree.entry? cwd path).isSome

def isDir (tree : FileTree) (cwd : Location) (path : Path) : Bool :=
  tree.entry? cwd path = some .dir

def readFile? (tree : FileTree) (cwd : Location) (path : Path) : Option Bytes :=
  match tree.entry? cwd path with
  | some (.file content) => some content
  | _ => none

def isFile (tree : FileTree) (cwd : Location) (path : Path) : Bool :=
  (tree.readFile? cwd path).isSome

/-! ## 4. Changing what a path leads to -/

/-- Follow segments from a place and make every directory that is missing on the way; `none` when
a file stands in the way. -/
def makeWay (tree : FileTree) : Location → List Bytes → Option (FileTree × Location)
  | place, [] => if tree.isDirAt place then some (tree, place) else none
  | place, segment :: rest =>
    if !tree.isDirAt place then none
    else if Path.isInert segment then tree.makeWay place rest
    else if segment = up then tree.makeWay place.dropLast rest
    else
      let below := place ++ [segment]
      match tree.get? below with
      | some _ => tree.makeWay below rest
      | none => (tree.put below .dir).makeWay below rest

/-- Make a directory and all that lead to it. -/
def makeDirs (tree : FileTree) (cwd : Location) (path : Path) : FileTree :=
  match tree.makeWay (startOf cwd path) (segments path) with
  | some (grown, _) => grown
  | none => tree

/-- Make a directory, fill it, and make the directories that lead to it. -/
def plant (tree : FileTree) (cwd : Location) (path : Path) (branch : FileTree) : FileTree :=
  match tree.makeWay (startOf cwd path) (segments path) with
  | some (grown, place) => grown.graftAt place branch
  | none => tree

/-- Write a regular file into a directory that is there, or that is made with those above it. -/
def writeFile (tree : FileTree) (cwd : Location) (path : Path) (content : Bytes) : FileTree :=
  match path.parent?, path.fileName? with
  | some parent, some name =>
    match tree.makeWay (startOf cwd path) (segments parent) with
    | some (grown, place) => grown.put (place ++ [name]) (.file content)
    | none => tree
  | _, _ => tree

/-- Remove a directory with everything below it. A plain file is refused. -/
def removeDir (tree : FileTree) (cwd : Location) (path : Path) : Except OsError FileTree :=
  match tree.resolve cwd path with
  | .error reason => .error reason
  | .ok place => if tree.isDirAt place then .ok (tree.removeAt place) else .error .notADirectory

/-- Remove whatever stands at a path; nothing there is nothing to do. -/
def remove (tree : FileTree) (cwd : Location) (path : Path) : FileTree :=
  match tree.resolve cwd path with
  | .ok place => tree.removeAt place
  | .error _ => tree

end FileTree

end PublishOnce
