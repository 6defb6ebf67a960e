/-
PublishOnce.Text.Escaped — a text between double quotes, made fit for a message.

A message about a misplaced string shows the string itself, and that string is
anybody's. So the quote and the backslash are written with a backslash, the
usual line controls by their letters, and every other character that cannot be
seen by its number in braces.
-/
import PublishOnce.Text.Unprintable

namespace PublishOnce.Text.Escaped

/-- The letter that stands behind a backslash for a character. -/
def letter? : Char → Option Char
  | '\x00' => some '0'
  | '\t' => some 't'
  | '\n' => some 'n'
  | '\r' => some 'r'
  | '"' => some '"'
  | '\\' => some '\\'
  | _ => none

/-- A character by its code point, in hexadecimal digits. -/
def byNumber (c : Char) : List Char :=
  "\\u\x7b".toList ++ Nat.toDigits 16 c.toNat ++ ['\x7d']

def character (c : Char) : List Char :=
  match letter? c with
  | some letter => ['\\', letter]
  | none => if isUnprintable c then byNumber c else [c]

def quote (text : String) : String :=
  String.ofList ('"' :: text.toList.flatMap character ++ ['"'])

end PublishOnce.Text.Escaped
