/-
PublishOnce.Repository.Commit — from the bytes of a commit to its message.

A commit is a header line for its tree, one for each parent, one for its author
and one for its committer, optionally one for an encoding, then any others, and
behind an empty line the message. Every header line must be well formed, even
though only the message is wanted. A commit that ends behind a header line has
an empty message.
-/
import PublishOnce.Repository.Object

namespace PublishOnce.Repository.Commit

/-! ## 1. Signatures -/

/-- White space in ASCII. -/
def isBlankByte (b : UInt8) : Bool :=
  b = 0x20 || b = 0x09 || b = 0x0A || b = 0x0C || b = 0x0D

/-- The bytes that may stand behind the address: a time and an offset. -/
def isTimeByte (b : UInt8) : Bool :=
  Bytes.isDigit b || b = Bytes.ofChar '+' || b = Bytes.ofChar '-' || b = 0x20 || b = 0x09

def opening : UInt8 := Bytes.ofChar '<'

def closing : UInt8 := Bytes.ofChar '>'

/-- Whether the text of a line is a signature: a name, an address between the first opening and the
last closing bracket, a time. White space and doubled brackets inside the two are cut off, and what
is cut at one end must not run into what is cut at the other. -/
def isSignature (line : Bytes) : Bool :=
  let behind := (line.reverse.takeWhile (· ≠ closing)).reverse
  if behind.length = line.length then false
  else
    let before := line.take (line.length - behind.length - 1)
    let name := before.takeWhile (· ≠ opening)
    let address := before.drop name.length
    let left := (address.takeWhile fun b => isBlankByte b || b = opening).length
    let right := (before.reverse.takeWhile fun b => isBlankByte b || b = closing).length
    !address.isEmpty && left + right ≤ address.length && behind.all isTimeByte

/-! ## 2. Header lines -/

/-- Take a line off, up to its line feed. -/
def takeLine (bytes : Bytes) : Option (Bytes × Bytes) :=
  match Bytes.cut (· = Bytes.lineFeed) bytes with
  | (line, _ :: rest) => some (line, rest)
  | (_, []) => none

/-- Take a header line off whose value is an id. -/
def takeIdHeader (name : String) (bytes : Bytes) : Option Bytes := do
  let rest ← Bytes.word? (name ++ " ") bytes
  let (_, rest) ← takeId rest
  Bytes.strip? [Bytes.lineFeed] rest

/-- Take a header line off whose value is a signature. -/
def takeSignature (name : String) (bytes : Bytes) : Option Bytes := do
  let rest ← Bytes.word? (name ++ " ") bytes
  let (line, rest) ← takeLine rest
  if isSignature line then some rest else none

/-- Take the header line of an encoding off, which must not be empty. -/
def takeEncoding (bytes : Bytes) : Option Bytes := do
  let rest ← Bytes.word? "encoding " bytes
  let (line, rest) ← takeLine rest
  if line.isEmpty then none else some rest

/-- Take all lines off that continue a header; they start with a blank. The first argument bounds
their number. -/
def dropContinuations : Nat → Bytes → Bytes
  | 0, bytes => bytes
  | bound + 1, bytes =>
    if bytes.head? = some Bytes.blank then
      match takeLine bytes with
      | some (_, rest) => dropContinuations bound rest
      | none => bytes
    else bytes

/-- Take any other header off: a name, a blank and a value, neither of them empty, and the lines that
continue it. -/
def takeOther (bytes : Bytes) : Option Bytes := do
  let (line, rest) ← takeLine bytes
  let (name, value) := Bytes.cut (· = Bytes.blank) line
  if name.isEmpty || value.length ≤ 1 then none else some (dropContinuations rest.length rest)

/-! ## 3. The message -/

/-- What remains behind header lines: their reader goes on, unless nothing is left. -/
def unlessDone (bytes : Bytes) (next : Bytes → Option Bytes) : Option Bytes :=
  if bytes.isEmpty then some [] else next bytes

/-- The message behind any other headers. The first argument bounds their number. -/
def behindOthers : Nat → Bytes → Option Bytes
  | 0, _ => none
  | bound + 1, bytes => unlessDone bytes fun bytes =>
    match takeOther bytes with
    | some rest => behindOthers bound rest
    | none => Bytes.strip? [Bytes.lineFeed] bytes

def behindCommitter (bytes : Bytes) : Option Bytes := unlessDone bytes fun bytes =>
  match takeEncoding bytes with
  | some rest => behindOthers (rest.length + 1) rest
  | none => behindOthers (bytes.length + 1) bytes

def behindParents (bytes : Bytes) : Option Bytes := do
  let rest ← takeSignature "author" bytes
  unlessDone rest fun bytes => do
    let rest ← takeSignature "committer" bytes
    behindCommitter rest

/-- The message behind the tree. The first argument bounds the number of parents. -/
def behindTree : Nat → Bytes → Option Bytes
  | 0, _ => none
  | bound + 1, bytes => unlessDone bytes fun bytes =>
    match takeIdHeader "parent" bytes with
    | some rest => behindTree bound rest
    | none => behindParents bytes

/-- The message of a commit, if its headers are well formed. -/
def message? (data : Bytes) : Option Bytes := unlessDone data fun data => do
  let rest ← takeIdHeader "tree" data
  behindTree (rest.length + 1) rest

end PublishOnce.Repository.Commit
