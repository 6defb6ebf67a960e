/-
PublishOnce.Transcript — what git answered, written down line by line.

A transcript has one line for each answer, in the order in which git is asked.
A line starts with a verb: git `prints` a text, it `fails` with a code and a
text, or it `clones` a repository whose latest commit carries a message, or
which has no commits if no message follows. A transcript with any other line is
refused as a whole, because answers behind a missing one would go to the wrong
questions.
-/
import PublishOnce.Git.Installed
import PublishOnce.Repository.Layout
import PublishOnce.Text.Lines

namespace PublishOnce.Transcript

open Program (Answer Shell)

/-- The first word of a text, and what follows the blank behind it. -/
def cutWord (text : List Char) : List Char × List Char :=
  (text.takeWhile (· ≠ ' '), (text.dropWhile (· ≠ ' ')).drop 1)

def lineBytes (text : List Char) : Bytes := Bytes.ofString (String.ofList (text ++ ['\n']))

/-- The branch of a repository that was cloned. -/
def branch : String := "main"

/-- The repository whose latest commit carries a message; no message, no commits. -/
def layout (message : List Char) : Repository.Layout :=
  if message.isEmpty then .unborn branch else .single branch (lineBytes message)

def answer? (line : List Char) : Option Answer :=
  let (verb, rest) := cutWord line
  match String.ofList verb with
  | "prints" => some { output := ⟨lineBytes rest, []⟩ }
  | "fails" =>
    let (code, text) := cutWord rest
    (String.ofList code).toNat?.map fun code =>
      { output := ⟨[], lineBytes text⟩, status := .exit code }
  | "clones" => some { leaves := some (layout rest).tree }
  | _ => none

def answers? (text : String) : Option (List Answer) := (Text.lines text.toList).mapM answer?

/-- The shell of a transcript. Git is there if it has answered anything. -/
def shell? (text : String) : Option Shell :=
  (answers? text).map fun answers =>
    { programs := if answers.isEmpty then [] else [Git.program], answers }

end PublishOnce.Transcript
