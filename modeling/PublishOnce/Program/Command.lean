/-
PublishOnce.Program.Command — running a program to its end.

A command is started at most once, with exactly its arguments. These are bytes;
the log shows of them what can be read. A command succeeds when it was started
and its status is zero; the outputs are then handed over byte by byte. What a
filter does concerns the journal alone: it chooses the lines of the error output
that are repeated there after a success.
-/
import PublishOnce.Program.Chatter
import PublishOnce.Program.Shell
import PublishOnce.Text.Quoted
import PublishOnce.World

namespace PublishOnce.Program

structure Command where
  program : Bytes
  args : List Bytes
  /-- The directory to run in, if not the working directory. -/
  dir : Option Path := none
  /-- The lines of its error output not to be repeated. -/
  chatter : Chatter := .none
  deriving Inhabited

namespace Command

/-! ## 1. Names and texts -/

/-- The program without its directory and its extension, as it is shown. -/
def name (command : Command) : String :=
  ((Path.mk command.program).fileStem?.getD command.program).toText

/-- What is shown of the arguments. -/
def argsText (command : Command) : String :=
  Text.Quoted.commandLine (fun c => c = ' ') (command.args.map Bytes.toText)

/-! ## 2. Starting -/

/-- Whether bytes cannot be handed to the system. -/
def hasZero (bytes : Bytes) : Bool := bytes.contains 0

/-- Where the command runs: its directory, which must be there. -/
def startPlace {G : Type} (command : Command) (world : World G) : Except StartError Location :=
  match command.dir with
  | none => .ok world.cwd
  | some dir =>
    match world.files.resolve world.cwd dir with
    | .error reason => .error (.refused reason)
    | .ok place => if world.files.isDirAt place then .ok place else .error (.refused .notADirectory)

/-- Look for a program. The shell finds it under the name or the path that is given, or not at all:
nothing else that a path leads to may be executed. -/
def findProgram (shell : Shell) (files : FileTree) (place : Location) (program : Bytes) :
    Except StartError Unit :=
  if shell.programs.contains program then .ok ()
  else if program.contains Path.slash then
    match files.resolve place ⟨program⟩ with
    | .error reason => .error (.refused reason)
    | .ok _ => .error (.refused .permissionDenied)
  else .error (.refused .notFound)

/-- Start the command: the place in which it runs, or why it does not. -/
def start (command : Command) (world : World Shell) : Except StartError Location := do
  if hasZero command.program || command.args.any hasZero
      || command.dir.any (fun dir => hasZero dir.bytes) then
    throw .zeroInside
  let place ← command.startPlace world
  findProgram world.git world.files place command.program
  return place

/-! ## 3. Running -/

/-- The world after a command was answered: one answer less, one attempt more, and whatever files the
answer leaves. -/
def answered (command : Command) (place : Location) (world : World Shell) :
    Answer × World Shell :=
  let (answer, shell) := world.git.nextAnswer
  (answer,
    { world with
      files := answer.leave world.files place command.args
      git := shell.record ⟨command.program, command.args, command.dir, .ok place⟩ })

def refused (command : Command) (reason : StartError) (world : World Shell) : World Shell :=
  { world with
    git := world.git.record ⟨command.program, command.args, command.dir, .error reason⟩ }

/-- The message on a success, if there is one. -/
def successMessage? (chatter : Chatter) (name : String) (output : Output) : Option Message :=
  chatter.message? name (Text.trim (Text.Utf8.decodeLossy output.err))

/-- The outputs of a finished command, or the failure that it is. -/
def judge (name : String) (answer : Answer) : Except Failure Output :=
  if answer.status.succeeded then .ok answer.output
  else .error (.unsuccessful name answer.status answer.output)

def run (command : Command) : Act Shell Output := do
  Act.debug command.name command.argsText
  match command.start (← get) with
  | .error reason =>
    modify (command.refused reason)
    throw (.command (.notStarted command.name reason))
  | .ok place =>
    let (answer, world) := command.answered place (← get)
    set world
    match judge command.name answer with
    | .error reason => throw (.command reason)
    | .ok output =>
      match successMessage? command.chatter command.name output with
      | some message => modify fun world => world.say message
      | none => pure ()
      return output

end Command

end PublishOnce.Program
