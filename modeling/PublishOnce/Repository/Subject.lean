/-
PublishOnce.Repository.Subject — the subject of a commit message.

A message starts with a title, which the first empty line ends. The title may
run over several lines; the subject is the title on one line. Where the title
ends is decided on the bytes, and the rest is done on the text.

The empty line is looked for behind each run of bytes that are no line end. A
search that finds one line end and not a second has used the first one up and
goes on one byte further, so some empty lines that a reader would see are
passed over.
-/
import PublishOnce.Repository.Bytes
import PublishOnce.Text.Blank
import PublishOnce.Text.Lines

namespace PublishOnce.Repository.Subject

/-! ## 1. The title -/

/-- The length of the run of bytes at the front that are no line end. -/
def runLength (bytes : Bytes) : Nat := (bytes.takeWhile fun b => !Bytes.isLineByte b).length

/-- The length of the title, if an empty line ends it. -/
def titleLength? : Bytes → Option Nat
  | [] => none
  | b :: rest =>
    if Bytes.isLineByte b then (titleLength? rest).map (· + 1)
    else
      let run := runLength rest
      match Bytes.lineEnd? (rest.drop run) with
      | none => (titleLength? (rest.drop (run + 1))).map (· + (run + 2))
      | some second =>
        match Bytes.lineEnd? second with
        | some _ => some (run + 1)
        | none =>
          -- the first line end and one byte behind it are used up
          let used := rest.length - second.length + 1
          (titleLength? (rest.drop used)).map (· + (used + 1))
termination_by bytes => bytes.length
decreasing_by all_goals simp only [List.length_cons, List.length_drop]; omega

/-- The title: the whole message if no empty line ends it. -/
def title (message : Bytes) : Bytes :=
  match titleLength? message with
  | some length => message.take length
  | none => message

/-! ## 2. One line -/

/-- The white space that is cut off at the end of a line. -/
def isLineBlank (c : Char) : Bool := c = '\t' || c = '\n' || c = '\x0c' || c = '\r' || c = ' '

def cutEnd (line : List Char) : List Char := (line.reverse.dropWhile isLineBlank).reverse

/-- Put lines behind what there is so far, with a blank for each line end. An empty line ends the
text, and then the blanks at its end go too. The last line is left as it is. -/
def joinLines (soFar : List Char) : List (List Char) → List Char
  | [] => soFar
  | [last] => soFar ++ last
  | line :: rest =>
    if line.isEmpty then Text.dropBlankEnd soFar
    else joinLines (soFar ++ cutEnd line ++ [' ']) rest

/-- A title on one line, without white space around it. -/
def oneLine (title : List Char) : List Char :=
  joinLines [] (Text.splitOn '\n' (Text.trimChars title))

/-! ## 3. The subject -/

/-- The subject of a message. Bytes that are no text are read leniently. -/
def ofMessage (message : Bytes) : String :=
  String.ofList (oneLine (Bytes.toText (title message)).toList)

end PublishOnce.Repository.Subject
