/-
PublishOnce.Journal — what a run has to say.

Messages go to the standard output, each behind a coloured tag that names the
part of the program it comes from. Notices go to the error output as they are.
A debug message is only taken down when the run is verbose; the journal
remembers that it was one, so that a verbose run can be compared with a quiet
one message by message.
-/
import PublishOnce.Text.Ansi

namespace PublishOnce

open Text.Ansi (Style)

/-! ## 1. Messages -/

structure Message where
  /-- Where it comes from, as the tag shows it. -/
  origin : String
  text : String
  /-- Only said in a verbose run. -/
  debug : Bool := false
  deriving DecidableEq, Repr, Inhabited

/-- The colour of a tag, by the origin in lower case. -/
def tagColour (lower : String) : Style :=
  if lower = "deploy" then .brightBlue
  else if lower = "git" then .brightGreen
  else if lower = "error" then .brightRed
  else .brightYellow

/-- An origin in brackets, bold and in the colour of its lower-case form. -/
def tag (origin lower : String) : String :=
  Style.bold.paint ((tagColour lower).paint ("[" ++ origin ++ "]"))

/-- A message as it is printed, with the end of its line. Only ASCII letters have a lower case here. -/
def Message.line (message : Message) : String :=
  tag message.origin message.origin.toLower ++ " " ++ message.text ++ "\n"

def Message.done (text : String) : Message :=
  ⟨"deploy", Style.green.paint "✓" ++ " " ++ text, false⟩

def Message.failed (text : String) : Message :=
  ⟨"error", Style.red.paint "✗" ++ " " ++ text, false⟩

/-! ## 2. The journal -/

/-- Messages and notices, each in order. -/
structure Journal where
  messages : List Message := []
  notices : List String := []
  deriving DecidableEq, Repr, Inhabited

namespace Journal

def say (journal : Journal) (message : Message) : Journal :=
  { journal with messages := journal.messages ++ [message] }

def note (journal : Journal) (text : String) : Journal :=
  { journal with notices := journal.notices ++ [text] }

def out (journal : Journal) : String := String.join (journal.messages.map Message.line)

def err (journal : Journal) : String := String.join (journal.notices.map (· ++ "\n"))

end Journal

end PublishOnce
