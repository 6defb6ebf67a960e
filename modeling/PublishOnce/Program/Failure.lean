/-
PublishOnce.Program.Failure — what can go wrong with a command.

A command that cannot be started has a reason from the system. A command that
was started and did not succeed has a status and two outputs, and the message
about it carries both in full: what is chatter on success may be the
explanation of a failure.
-/
import PublishOnce.FileTree
import PublishOnce.Program.WaitStatus
import PublishOnce.Text.Blank
import PublishOnce.Text.Utf8

namespace PublishOnce.Program

/-! ## 1. Causes -/

structure Output where
  out : Bytes := []
  err : Bytes := []
  deriving DecidableEq, Repr, Inhabited

/-- Why a command was not started. -/
inductive StartError where
  /-- The program, an argument or the directory has a zero character in it. -/
  | zeroInside
  | refused (reason : OsError)
  deriving DecidableEq, Repr

def StartError.message : StartError → String
  | .zeroInside => "nul byte found in provided data"
  | .refused reason => reason.message

/-- Why a command did not do what it was asked. -/
inductive Failure where
  | notStarted (name : String) (reason : StartError)
  | unsuccessful (name : String) (status : WaitStatus) (output : Output)
  deriving DecidableEq, Repr

/-! ## 2. Messages -/

/-- The outputs of a command behind the sentence about it, each only if there is something to see in
it. -/
def Output.text (output : Output) : String :=
  let err := Text.trim (Text.Utf8.decodeLossy output.err)
  let out := Text.trim (Text.Utf8.decodeLossy output.out)
  (if err.isEmpty then "" else "\n" ++ err) ++ (if out.isEmpty then "" else "\nStdout:\n" ++ out)

/-- The message about a command with a status and outputs. -/
def failureText (name : String) (status : WaitStatus) (output : Output) : String :=
  "Command `" ++ name ++ "` failed with " ++ status.text ++ output.text

def Failure.message : Failure → String
  | .notStarted name _ => "Failed to execute `" ++ name ++ "`"
  | .unsuccessful name status output => failureText name status output

def Failure.causes : Failure → List String
  | .notStarted _ reason => [reason.message]
  | .unsuccessful .. => []

end PublishOnce.Program
