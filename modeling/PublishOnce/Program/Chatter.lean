/-
PublishOnce.Program.Chatter — which lines of a program's error output are worth
repeating.

Programs report progress on the error output, and most of it tells a reader
nothing. A line is judged without its colours and without the white space
around it: it is dropped if nothing is left, or if what is left starts like a
line that is known to be chatter. A line that stays is repeated as it was,
colours and all.
-/
import PublishOnce.Journal
import PublishOnce.Text.Blank
import PublishOnce.Text.Lines

namespace PublishOnce.Program

/-- How the lines start that are not worth repeating. -/
structure Chatter where
  starts : List String := []
  deriving DecidableEq, Repr, Inhabited

namespace Chatter

/-- No line is chatter, unless there is nothing on it. -/
def none : Chatter := {}

/-- What git says about the progress of a clone. -/
def git : Chatter :=
  ⟨["hint:", "Cloning into", "warning: You appear to have cloned an empty repository.", "done."]⟩

/-- A line is chatter if it is empty or starts like one. -/
def skips (chatter : Chatter) (line : String) : Bool :=
  line.isEmpty || chatter.starts.any fun start => start.toList.isPrefixOf line.toList

/-- What a line is judged by. -/
def plain (line : String) : String := Text.trim (Text.Ansi.stripString line)

/-- The lines of a text that are worth repeating. -/
def keep (chatter : Chatter) (text : String) : List String :=
  ((Text.lines text.toList).map String.ofList).filter fun line => !chatter.skips (plain line)

/-- One message with all lines worth repeating, if there are any. -/
def message? (chatter : Chatter) (name text : String) : Option Message :=
  match chatter.keep text with
  | [] => Option.none
  | lines => some ⟨name, "\n".intercalate lines, false⟩

end Chatter

end PublishOnce.Program
