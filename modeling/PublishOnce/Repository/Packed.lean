/-
PublishOnce.Repository.Packed — references that share one file.

Many references can be packed into one file, with a line for each, and behind
the line of a tag one more for what the tag leads to. A header may promise that
the names are in order. A file without the promise is read through, and all of
it must be readable. A file with it is searched by halves and never read
through: nobody checks the promise, and an unreadable line is only noticed if
the search comes upon it. So a search in a file that breaks its promise can
miss a name that is there.
-/
import PublishOnce.Repository.Object
import PublishOnce.Repository.RefName

namespace PublishOnce.Repository

/-- Something is there and cannot be read. -/
inductive RefError where
  | unreadable
  deriving DecidableEq, Repr

/-! ## 1. Records -/

structure Packed where
  name : String
  id : Id
  /-- What a tag leads to, if the file says so. -/
  peeled : Option Id := none
  deriving DecidableEq, Repr, Inhabited

/-- Take a line off, which must have an end. -/
def takeLine (bytes : Bytes) : Option (Bytes × Bytes) := do
  let (line, rest) := Bytes.cut Bytes.isLineByte bytes
  return (line, ← Bytes.lineEnd? rest)

/-- What starts the line that says what a tag leads to. -/
def caret : UInt8 := Bytes.ofChar '^'

/-- Take the line off that says what a tag leads to. -/
def takePeeled (bytes : Bytes) : Option (Id × Bytes) := do
  let rest ← Bytes.strip? [caret] bytes
  let (id, rest) ← takeId rest
  return (id, ← Bytes.lineEnd? rest)

/-- Take a reference off: an id, a blank, a name, the end of the line, and what a tag leads to. -/
def takePacked (bytes : Bytes) : Option (Packed × Bytes) := do
  let (id, rest) ← takeId bytes
  let rest ← Bytes.strip? [Bytes.blank] rest
  let (line, rest) ← takeLine rest
  let name := Bytes.toText line
  if isRefName name then
    match takePeeled rest with
    | some (peeled, rest) => some (⟨name, id, some peeled⟩, rest)
    | none => some (⟨name, id, none⟩, rest)
  else none

/-- Read references to the end. The first argument bounds their number. -/
def packedEntries? : Nat → Bytes → Option (List Packed)
  | 0, bytes => if bytes.isEmpty then some [] else none
  | bound + 1, bytes =>
    if bytes.isEmpty then some []
    else do
      let (entry, rest) ← takePacked bytes
      return entry :: (← packedEntries? bound rest)

/-! ## 2. Files -/

/-- A file of packed references. -/
inductive PackedFile where
  /-- All references of a file that has been read through. -/
  | listed (entries : List Packed)
  /-- The bytes behind a header that promises an order. -/
  | ordered (records : Bytes)
  deriving DecidableEq, Inhabited

/-- Take the header off, if there is one, and tell whether it promises that the names are in
order. -/
def takeHeader (bytes : Bytes) : Option (Bool × Bytes) :=
  if bytes.head? = some (Bytes.ofChar '#') then do
    let rest ← Bytes.word? "# pack-refs with: " bytes
    let (line, rest) ← takeLine rest
    let promises := (Text.splitOn ' ' (Bytes.toText line).toList).map String.ofList
    return (promises.contains "sorted", rest)
  else some (false, bytes)

/-- Read a file of packed references. Where nothing was promised, a second header is passed over. -/
def PackedFile.ofContent? (content : Bytes) : Option PackedFile := do
  let (promised, rest) ← takeHeader content
  if promised then return .ordered rest
  let (_, rest) ← takeHeader rest
  return .listed (← packedEntries? rest.length rest)

/-! ## 3. Searching by halves -/

/-- Where the line begins that an offset is in. -/
def lineStart (bytes : Bytes) (offset : Nat) : Nat :=
  offset - ((bytes.take offset).reverse.takeWhile (· ≠ Bytes.lineFeed)).length

/-- Where the record begins that an offset is in. What a tag leads to belongs to the line before. -/
def recordStart (bytes : Bytes) (offset : Nat) : Nat :=
  let start := lineStart bytes offset
  if bytes[start]? = some caret then lineStart bytes (start - 1) else start

/-- The record that an offset is in, if it can be read. -/
def recordAt? (bytes : Bytes) (offset : Nat) : Option Packed :=
  (takePacked (bytes.drop (recordStart bytes offset))).map (·.1)

/-- The offsets that are looked at, from a first one and a number of candidates on. Half of the
candidates are given up each time: those from the middle on if it is beyond the aim, otherwise those
before it. The last offset is all that remains. -/
def halving (isBeyond : Nat → Bool) (first count : Nat) : List Nat :=
  if 1 < count then
    let middle := first + count / 2
    middle :: halving isBeyond (if isBeyond middle then first else middle) (count - count / 2)
  else [first]
termination_by count

/-- Whether the record at an offset has a name behind another. An unreadable one has not. -/
def isBehind (bytes : Bytes) (name : String) (offset : Nat) : Bool :=
  (recordAt? bytes offset).any fun entry => decide (name < entry.name)

/-- Search for a name where names are in order. If it is not there, nothing unreadable may have been
met on the way. -/
def searchOrdered (bytes : Bytes) (name : String) : Except RefError (Option Packed) :=
  if bytes.isEmpty then .ok none
  else
    let records := (halving (isBehind bytes name) 0 bytes.length).map (recordAt? bytes)
    match records.getLast?.join with
    | some entry =>
      if entry.name = name then .ok (some entry)
      else if records.contains none then .error .unreadable
      else .ok none
    | none => .error .unreadable

/-- The packed reference of a full name; of several, the last one counts. -/
def PackedFile.find (file : PackedFile) (name : String) : Except RefError (Option Packed) :=
  if !isPackable name then .ok none
  else
    match file with
    | .listed entries => .ok (entries.reverse.find? fun entry => entry.name = name)
    | .ordered records => searchOrdered records name

end PublishOnce.Repository
