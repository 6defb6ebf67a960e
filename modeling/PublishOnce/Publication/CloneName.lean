/-
PublishOnce.Publication.CloneName — what the directory of a clone is called.

A clone is named after the last part of the address it comes from, as git does
it: separators at the end do not count, a last part `.git` stands for the one
before it, and the ending `.git` is there exactly once. An address that names
nothing gives `remote.git`.
-/
import PublishOnce.Text.Lines

namespace PublishOnce.CloneName

/-- What parts an address: a slash, a colon or a backslash. -/
def isSeparator (c : Char) : Bool := c = '/' || c = ':' || c = '\\'

/-- What may be left out at the end of an address. -/
def isTrailing (c : Char) : Bool := c = '/' || c = '\\'

/-- An address without separators at its end. -/
def dropTrailing (remote : List Char) : List Char :=
  (remote.reverse.dropWhile isTrailing).reverse

/-- The last part of an address, and what is before its separator if there is one. -/
def lastPart (address : List Char) : List Char × Option (List Char) :=
  let part := (address.reverse.takeWhile fun c => !isSeparator c).reverse
  let before := address.take (address.length - part.length)
  (part, if before.isEmpty then none else some before.dropLast)

def ending : List Char := ".git".toList

/-- The part of an address that gives the name: the last one, or the one before a last part that is
only the ending. -/
def base (remote : List Char) : List Char :=
  let (part, before) := lastPart (dropTrailing remote)
  if part = ending then
    match before with
    | some before => (lastPart before).1
    | none => []
  else part

def withEnding (name : List Char) : List Char :=
  if ending.isSuffixOf name then name else name ++ ending

def ofChars (remote : List Char) : List Char :=
  let name := base remote
  withEnding (if name.isEmpty then "remote".toList else name)

end PublishOnce.CloneName

namespace PublishOnce

/-- The name of the directory in which a bare clone of a repository is made. -/
def cloneName (remote : String) : String := String.ofList (CloneName.ofChars remote.toList)

end PublishOnce
