/-
PublishOnce.Proofs.Program.Outputs — what becomes of the outputs of a program.

A program is started once or not at all. If it ends with the status zero, its
outputs are handed over byte by byte, and of the error output those lines are
said that are worth repeating. If it ends in any other way, nothing of its
outputs is said, and all that there is to see in them goes into the words of the
failure: what is chatter on a success may be the explanation of a failure.

`run_messages` is the one place at which the messages of a run are counted up.
With `run_ok_iff` and the words of a failure it makes the promises of
`RunsExactly`. None of them but the one about a success mentions the chatter of a
command, and that is as it should be: chatter concerns the journal and nothing
else.
-/
import PublishOnce.Proofs.Program.Running
import PublishOnce.Proofs.Text.Trim

namespace PublishOnce.Program

open World (SameGround)

/-! ## 1. The words of a failure -/

/-- What there is to see in an output, behind a heading; no heading if there is nothing to see. -/
def underHeading (heading : String) (output : List UInt8) : String :=
  if Text.allBlank (Text.Utf8.decodeLossy output) then ""
  else heading ++ Text.trim (Text.Utf8.decodeLossy output)

theorem failureText_eq (name : String) (status : WaitStatus) (output : Output) :
    failureText name status output =
      "Command `" ++ name ++ "` failed with " ++ status.text
        ++ (underHeading "\n" output.err ++ underHeading "\nStdout:\n" output.out) := by
  unfold failureText Output.text underHeading
  simp only [Text.isEmpty_trim]

/-- An error output ` no` and an output with nothing to see in it. -/
example : failureText "git" (.exit 1) { err := [0x20, 0x6E, 0x6F, 0x0A], out := [0x0A] } =
    "Command `git` failed with exit status: 1\nno" := by
  decide +kernel

/-! ## 2. The lines that pass -/

/-- A line is worth repeating: without its colours there is something to see on it, and what there is
does not start like chatter. -/
def Chatter.passes (chatter : Chatter) (line : String) : Bool :=
  !Text.allBlank (Text.Ansi.stripString line)
    && !chatter.starts.any fun start =>
      start.toList.isPrefixOf (Text.trim (Text.Ansi.stripString line)).toList

theorem Chatter.keep_eq (chatter : Chatter) (text : String) :
    chatter.keep text = ((Text.lines text.toList).map String.ofList).filter chatter.passes := by
  unfold keep
  congr 1
  funext line
  unfold skips plain passes
  rw [Text.isEmpty_trim, Bool.not_or]

namespace Command

variable {command : Command} {world : World Shell}

/-! ## 3. What a run says -/

/-- The arguments of a command as a debug message, if such are wanted. -/
def announcement (command : Command) (verbose : Bool) : List Message :=
  if verbose then [⟨command.name, command.argsText, true⟩] else []

/-- The lines of a trimmed error output that are worth repeating. -/
def passing (command : Command) (output : Output) : List String :=
  ((Text.lines (Text.trim (Text.Utf8.decodeLossy output.err)).toList).map String.ofList).filter
    command.chatter.passes

/-- One message with these lines, if there are any. -/
def repetition (command : Command) (output : Output) : List Message :=
  if command.passing output = [] then []
  else [⟨command.name, "\n".intercalate (command.passing output), false⟩]

theorem messages_announced (command : Command) (world : World Shell) :
    (command.announced world).journal.messages =
      world.journal.messages ++ command.announcement world.verbose := by
  unfold announced announcement World.debug
  split
  · rfl
  · exact (List.append_nil _).symm

theorem messages_repeated (command : Command) (output : Output) (world : World Shell) :
    (command.repeated output world).journal.messages =
      world.journal.messages ++ command.repetition output := by
  have hkept : command.chatter.keep (Text.trim (Text.Utf8.decodeLossy output.err)) =
      command.passing output := Chatter.keep_eq ..
  unfold repeated repetition successMessage? Chatter.message?
  rw [hkept]
  cases command.passing output with
  | nil => exact (List.append_nil _).symm
  | cons line rest => rfl

/-- A run announces its arguments, and behind a success it repeats what is worth it. -/
theorem run_messages (command : Command) (world : World Shell) :
    (command.run world).2.journal.messages =
      world.journal.messages ++ command.announcement world.verbose
        ++ (match (command.run world).1 with
          | .ok output => command.repetition output
          | .error _ => []) := by
  rw [run_apply]
  cases command.start world with
  | error reason => exact (messages_announced ..).trans (List.append_nil _).symm
  | ok place =>
    simp only
    cases judge command.name world.git.nextAnswer.1 with
    | error reason => exact (messages_announced ..).trans (List.append_nil _).symm
    | ok output =>
      have hanswered : (command.answered place (command.announced world)).2.journal =
          (command.announced world).journal := rfl
      simp only [messages_repeated, hanswered, messages_announced]

/-- All that a run says is tagged with the name of the program. -/
theorem origin_run (command : Command) (world : World Shell) :
    ∃ said, (command.run world).2.journal.messages = world.journal.messages ++ said
      ∧ ∀ message ∈ said, message.origin = command.name := by
  refine ⟨_, (run_messages command world).trans (List.append_assoc ..), ?_⟩
  rw [List.forall_mem_append]
  constructor
  · unfold announcement
    split <;> simp
  · split
    · unfold repetition
      split <;> simp
    · simp

/-! ## 4. The ways in which a run fails -/

/-- A run fails because the program is not started, or because its status is not zero. -/
theorem run_eq_error_iff {reason : PublishOnce.Failure} :
    (command.run world).1 = .error reason ↔
      (∃ cause, command.start world = .error cause
          ∧ reason = .command (.notStarted command.name cause))
        ∨ ((∃ place, command.start world = .ok place)
          ∧ (world.git.answers.headD {}).status.succeeded = false
          ∧ reason = .command (.unsuccessful command.name (world.git.answers.headD {}).status
              (world.git.answers.headD {}).output)) := by
  rw [run_apply, ← Shell.nextAnswer_fst]
  cases command.start world with
  | error cause => simp [@eq_comm _ reason]
  | ok place =>
    unfold judge
    cases world.git.nextAnswer.1.status.succeeded <;> simp [@eq_comm _ reason]

/-! ## 5. Exactness -/

/-- A command runs exactly in a world: what it is asked arrives, and so does what it answers. -/
structure RunsExactly (command : Command) (world : World Shell) : Prop where
  /-- There is one attempt to start the program, with the arguments as they are and in order. -/
  once : (command.run world).2.git.attempts = world.git.attempts ++
    [⟨command.program, command.args, command.dir, command.start world⟩]
  /-- A program that is started and ends with the status zero is a success, and nothing else is. Both
  outputs are handed over as they are. -/
  succeeds (output : Output) : (command.run world).1 = .ok output ↔
    (∃ place, command.start world = .ok place)
      ∧ (world.git.answers.headD {}).status.raw = 0
      ∧ (world.git.answers.headD {}).output = output
  /-- Chatter has no influence on the outcome, nor on anything that is done. -/
  unfiltered (chatter : Chatter) :
    ({ command with chatter }.run world).1 = (command.run world).1
      ∧ SameGround ({ command with chatter }.run world).2 (command.run world).2
  /-- On a success the arguments are announced, if that is wanted, and what is worth it is repeated. -/
  told (output : Output) : (command.run world).1 = .ok output →
    (command.run world).2.journal.messages = world.journal.messages
      ++ command.announcement world.verbose ++ command.repetition output
  /-- On a failure nothing is repeated. -/
  hushed (reason : PublishOnce.Failure) : (command.run world).1 = .error reason →
    (command.run world).2.journal.messages =
      world.journal.messages ++ command.announcement world.verbose
  /-- A failure says why the program was not started, or else what its status was and all that there
  is to see in its outputs. -/
  explained (reason : PublishOnce.Failure) : (command.run world).1 = .error reason →
    (∃ cause, command.start world = .error cause
        ∧ reason.message = "Failed to execute `" ++ command.name ++ "`"
        ∧ reason.causes = [cause.message])
      ∨ ((∃ place, command.start world = .ok place)
        ∧ (world.git.answers.headD {}).status.raw ≠ 0
        ∧ reason.message = "Command `" ++ command.name ++ "` failed with "
            ++ (world.git.answers.headD {}).status.text
            ++ (underHeading "\n" (world.git.answers.headD {}).output.err
              ++ underHeading "\nStdout:\n" (world.git.answers.headD {}).output.out)
        ∧ reason.causes = [])

theorem start_chatter (command : Command) (chatter : Chatter) (world : World Shell) :
    { command with chatter }.start world = command.start world := rfl

theorem run_chatter (command : Command) (chatter : Chatter) (world : World Shell) :
    ({ command with chatter }.run world).1 = (command.run world).1
      ∧ SameGround ({ command with chatter }.run world).2 (command.run world).2 := by
  constructor
  · rw [run_apply, run_apply, start_chatter]
    cases command.start world with
    | error reason => rfl
    | ok place =>
      have hname : { command with chatter }.name = command.name := rfl
      simp only [hname]
      cases judge command.name world.git.nextAnswer.1 <;> rfl
  · have hbehind : { command with chatter }.behind world = command.behind world := rfl
    exact (hbehind ▸ run_ground ..).trans (run_ground command world).symm

end Command

end PublishOnce.Program
