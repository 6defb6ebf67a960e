/-
PublishOnce.Repository.Ref — references, and how one is looked up.

A loose reference is a file of its own, and its name is the path of that file.
A loose reference wins over a packed one of the same name.

`find` looks a name up. That nothing has the name is one answer; that something
has it and cannot be read is another, and the two are kept apart all the way,
because only the first may ever be taken for an empty repository.
-/
import PublishOnce.Repository.Packed

namespace PublishOnce.Repository

/-! ## 1. What a reference says -/

inductive Target where
  | symbolic (name : String)
  | direct (id : Id)
  deriving DecidableEq, Repr, Inhabited

structure Ref where
  name : String
  target : Target
  /-- What a packed tag leads to, as the file says. -/
  peeled : Option Id := none
  deriving DecidableEq, Repr, Inhabited

/-- Read the content of a loose reference: another name behind `ref: `, up to the end of the line,
or an id and whatever follows it. -/
def Target.ofLoose? (content : Bytes) : Option Target :=
  match Bytes.word? "ref: " content with
  | some rest =>
    let name := Bytes.toText (Bytes.cut Bytes.isLineByte (rest.dropWhile (· = Bytes.blank))).1
    if isRefName name then some (.symbolic name) else none
  | none => (takeId content).map fun (id, _) => .direct id

def Ref.ofPacked (entry : Packed) : Ref := ⟨entry.name, .direct entry.id, entry.peeled⟩

end PublishOnce.Repository

namespace PublishOnce

/-! ## 2. Looking a name up -/

/-- A repository: the files below its directory. -/
structure Repository where
  files : FileTree
  deriving DecidableEq, Inhabited

namespace Repository

/-- The segments of a name, which lead to its file. -/
def placeOf (name : String) : Location := Text.splitOn Path.slash name

/-- Whether a file stands where a directory would have to lead to a place. -/
def isBlocked (files : FileTree) (place : Location) : Bool :=
  (List.range place.length).any fun depth =>
    match files.get? (place.take depth) with
    | some (.file _) => true
    | _ => false

/-- The content of the loose reference of a full name. A directory is not one. -/
def loose (repository : Repository) (name : String) : Except RefError (Option Bytes) :=
  match repository.files.get? (placeOf name) with
  | some (.file content) => .ok (some content)
  | some .dir => .ok none
  | none => if isBlocked repository.files (placeOf name) then .error .unreadable else .ok none

def packed (repository : Repository) : Except RefError PackedFile :=
  match repository.files.get? ["packed-refs"] with
  | some (.file content) =>
    match PackedFile.ofContent? content with
    | some file => .ok file
    | none => .error .unreadable
  | some .dir => .error .unreadable
  | none => .ok (.listed [])

/-- The reference of a full name: loose, or else packed. -/
def findFull (repository : Repository) (file : PackedFile) (name : String) :
    Except RefError (Option Ref) := do
  match ← repository.loose name with
  | some content =>
    match Target.ofLoose? content with
    | some target => .ok (some { name, target })
    | none => .error .unreadable
  | none => return (← file.find name).map Ref.ofPacked

/-- The first reference of several full names. -/
def findFirst (repository : Repository) (file : PackedFile) :
    List String → Except RefError (Option Ref)
  | [] => .ok none
  | name :: names => do
    match ← repository.findFull file name with
    | some ref => .ok (some ref)
    | none => findFirst repository file names

/-- Look a name up, which may be an abbreviation. -/
def find (repository : Repository) (name : String) : Except RefError (Option Ref) := do
  let file ← repository.packed
  findFirst repository file (fullNames name)

end Repository

end PublishOnce
