/-
PublishOnce.Repository.Bytes — reading the files of a repository.

The files of a repository are bytes with a structure of their own: words in
ASCII, hexadecimal ids, and texts of no particular encoding up to the end of a
line. A reader takes something off the front and says what is left, or fails
and takes nothing.
-/
import PublishOnce.Bytes

namespace PublishOnce.Bytes

def lineFeed : UInt8 := 0x0A

def carriageReturn : UInt8 := 0x0D

def blank : UInt8 := 0x20

/-- A line feed or a carriage return. -/
def isLineByte (b : UInt8) : Bool := b = lineFeed || b = carriageReturn

def isDigit (b : UInt8) : Bool := 0x30 ≤ b && b ≤ 0x39

/-- A hexadecimal digit, letters in lower case only. -/
def isHexDigit (b : UInt8) : Bool := isDigit b || (0x61 ≤ b && b ≤ 0x66)

def strip? : Bytes → Bytes → Option Bytes
  | [], bytes => some bytes
  | _ :: _, [] => none
  | b :: start, c :: bytes => if b = c then strip? start bytes else none

def word? (word : String) (bytes : Bytes) : Option Bytes := strip? (ofString word) bytes

/-- Take the end of a line off: a line feed, or a carriage return and a line feed. -/
def lineEnd? : Bytes → Option Bytes
  | b :: rest =>
    if b = lineFeed then some rest
    else if b = carriageReturn then
      match rest with
      | c :: rest => if c = lineFeed then some rest else none
      | [] => none
    else none
  | [] => none

/-- Cut before the first byte of a kind. -/
def cut (p : UInt8 → Bool) (bytes : Bytes) : Bytes × Bytes :=
  (bytes.takeWhile fun b => !p b, bytes.dropWhile fun b => !p b)

end PublishOnce.Bytes
