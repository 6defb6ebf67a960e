/-
PublishOnce.Repository.Object — ids and objects.

An object is a commit, a tag, a tree or a blob, and an id of forty hexadecimal
digits names it. It is kept in a file whose path is the id, split behind the
second digit. The file says the kind and the size of the object, a zero byte,
and then the object; this is its content once it has been decompressed. Packs and
objects of other repositories are left out.
-/
import PublishOnce.FileTree
import PublishOnce.Repository.Bytes

namespace PublishOnce.Repository

/-! ## 1. Ids -/

/-- The name of an object. -/
structure Id where
  /-- Forty hexadecimal digits in lower case. -/
  digits : String
  deriving DecidableEq, Repr, Inhabited

def idLength : Nat := 40

def takeId (bytes : Bytes) : Option (Id × Bytes) :=
  let digits := bytes.take idLength
  if digits.length = idLength ∧ digits.all Bytes.isHexDigit = true then
    some (⟨Bytes.toText digits⟩, bytes.drop idLength)
  else none

/-- The id with a given value, written with zeros in front. -/
def Id.ofNat (number : Nat) : Id :=
  let digits := Nat.toDigits 16 number
  ⟨String.ofList (List.replicate (idLength - digits.length) '0' ++ digits)⟩

/-! ## 2. Objects -/

inductive Kind where
  | commit
  | tag
  | tree
  | blob
  deriving DecidableEq, Repr, Inhabited

def Kind.word : Kind → String
  | .commit => "commit"
  | .tag => "tag"
  | .tree => "tree"
  | .blob => "blob"

def Kind.all : List Kind := [.commit, .tag, .tree, .blob]

structure Object where
  kind : Kind
  data : Bytes
  deriving DecidableEq, Repr, Inhabited

def Object.stored (object : Object) : Bytes :=
  Bytes.ofString (object.kind.word ++ " " ++ toString object.data.length) ++ 0 :: object.data

def Object.ofStored? (content : Bytes) : Option Object :=
  let (header, rest) := Bytes.cut (· = 0) content
  match rest with
  | [] => none
  | _ :: data => do
    let kind ← Kind.all.find? fun kind =>
      header = Bytes.ofString (kind.word ++ " " ++ toString data.length)
    return ⟨kind, data⟩

/-- Where an object is kept, from the repository on. -/
def Id.place (id : Id) : Location :=
  ["objects", String.ofList (id.digits.toList.take 2), String.ofList (id.digits.toList.drop 2)]

/-! ## 3. Tags -/

/-- The id that a tag is for; its data start with it. -/
def tagged? (data : Bytes) : Option Id := do
  let rest ← Bytes.word? "object " data
  let (id, rest) ← takeId rest
  let _ ← Bytes.strip? [Bytes.lineFeed] rest
  return id

end PublishOnce.Repository
