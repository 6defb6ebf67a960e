/-
PublishOnce.Bytes — what the system takes for a name.

A path, the name of an entry, a word of a command line and the argument of a
program are bytes. Most of them were written as text, and none of them has to be
text: nothing but the zero byte is forbidden, and the slash where a name has to
stand alone.

Text becomes bytes as it is. Bytes are shown by the lenient reading, which gives
a text back as it was and replaces what cannot be read. So two names that are no
text can look alike, and a name that was read from what is shown of another one
need not be the other one.
-/
import PublishOnce.Text.Utf8

namespace PublishOnce

abbrev Bytes := List UInt8

namespace Bytes

def ofString (text : String) : Bytes := Text.Utf8.encode text

instance : Coe String Bytes := ⟨ofString⟩

/-- What is shown of bytes. -/
def toText (bytes : Bytes) : String := Text.Utf8.decodeLossy bytes

/-- The text that the bytes are, if they are one. -/
def text? (bytes : Bytes) : Option String := Text.Utf8.decode? bytes

def ofChar (c : Char) : UInt8 := UInt8.ofNat c.toNat

end Bytes

end PublishOnce
