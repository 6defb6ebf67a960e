/-
PublishOnce.Program.Shell — the programs that can be started, and what they will
answer.

A shell knows under which names and paths it finds a program, and holds the
answers of the programs in the order in which they will be asked. Which
directories it looks through for a name is its own affair. Each attempt to start
a program is recorded, whether it came off or not. An answer has the two outputs
and the status, and it may leave files at the path that the last argument names,
which is how a clone comes into being. When the answers are used up, programs
say nothing and succeed.
-/
import PublishOnce.Program.Failure

namespace PublishOnce.Program

/-- What a program does when it is asked. -/
structure Answer where
  output : Output := {}
  status : WaitStatus := ⟨0⟩
  /-- The content of the directory that it makes at its last argument. -/
  leaves : Option FileTree := none
  deriving Inhabited

structure Attempt where
  program : Bytes
  args : List Bytes
  /-- The directory that was asked for, if one was. -/
  dir : Option Path
  /-- The place in which it started, or why it did not. -/
  outcome : Except StartError Location
  deriving Inhabited

/-- The programs that can be started, their answers to come, and the attempts so far. -/
structure Shell where
  /-- The names and paths under which programs are found. -/
  programs : List Bytes := []
  answers : List Answer := []
  attempts : List Attempt := []
  deriving Inhabited

/-- The files after an answer to a program that was started in a place. -/
def Answer.leave (answer : Answer) (files : FileTree) (place : Location) (args : List Bytes) :
    FileTree :=
  match answer.leaves, args.getLast? with
  | some branch, some path => files.plant place ⟨path⟩ branch
  | _, _ => files

namespace Shell

def nextAnswer (shell : Shell) : Answer × Shell :=
  match shell.answers with
  | answer :: rest => (answer, { shell with answers := rest })
  | [] => ({}, shell)

def record (shell : Shell) (attempt : Attempt) : Shell :=
  { shell with attempts := shell.attempts ++ [attempt] }

end Shell

end PublishOnce.Program
