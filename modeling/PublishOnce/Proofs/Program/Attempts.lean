/-
PublishOnce.Proofs.Program.Attempts — commands that are tried one after the
other.

What a run has asked of its shell is on the shell's record, but the record does
not say how the programs ended; the answers do. `verdicts` reads the two side
by side: an attempt that started takes the next answer, an attempt that was
refused takes none.

`Tried` is what a routine shows to the outside while it goes through a list of
commands: nothing is tried behind the first failure. `Tried.recorded` turns it
into a statement about the record. `InPlace` is about the places that programs
were started in, which follow from the directories that were asked for.
-/
import PublishOnce.Proofs.Program.Running

namespace PublishOnce.Program

/-! ## 1. The record and the answers -/

/-- What an attempt asked for: a program, its arguments and a directory. -/
def Attempt.asked (attempt : Attempt) : Bytes × List Bytes × Option Path :=
  (attempt.program, attempt.args, attempt.dir)

/-- What a command asks for. -/
def Command.asked (command : Command) : Bytes × List Bytes × Option Path :=
  (command.program, command.args, command.dir)

/-- Whether the program was started. -/
def Attempt.started (attempt : Attempt) : Bool :=
  match attempt.outcome with
  | .ok _ => true
  | .error _ => false

/-- Whether each attempt succeeded, given the answers that were to come. When the answers are used
up, programs succeed. -/
def verdicts : List Answer → List Attempt → List Bool
  | _, [] => []
  | answers, attempt :: rest =>
    if attempt.started then
      (answers.headD {}).status.succeeded :: verdicts answers.tail rest
    else false :: verdicts answers rest

theorem verdicts_append (answers : List Answer) (attempts more : List Attempt) :
    verdicts answers (attempts ++ more) =
      verdicts answers attempts
        ++ verdicts (answers.drop (attempts.countP Attempt.started)) more := by
  induction attempts generalizing answers with
  | nil => simp [verdicts]
  | cons attempt rest ih =>
    by_cases hstarted : attempt.started = true
    · simp [verdicts, hstarted, ih, List.drop_drop, Nat.add_comm, ← List.drop_one]
    · simp [verdicts, hstarted, ih]

/-! ## 2. One command -/

namespace Command

variable {world world' : World Shell}

theorem started_attempt (command : Command) (world : World Shell) :
    (command.attempt world).started = true ↔ ∃ place, command.start world = .ok place := by
  unfold attempt Attempt.started
  cases command.start world <;> simp

/-- The verdict on the attempt that a run goes down as tells whether the run succeeded. -/
theorem verdicts_attempt (command : Command) (world : World Shell) :
    verdicts world.git.answers [command.attempt world] = [(command.run world).1.isOk] := by
  have hok : (command.run world).1.isOk = true ↔ ∃ output, (command.run world).1 = .ok output := by
    cases (command.run world).1 <;> simp [Except.isOk, Except.toBool]
  have hstarted := started_attempt command world
  by_cases h : (command.attempt world).started = true
  · obtain ⟨place, hplace⟩ := hstarted.mp h
    simp only [verdicts, h, if_true, List.cons.injEq, and_true]
    rw [Bool.eq_iff_iff, hok]
    simp [run_ok_iff, hplace]
  · simp only [verdicts, h, Bool.false_eq_true, if_false, List.cons.injEq, and_true]
    symm
    rw [Bool.eq_false_iff]
    intro hrun
    obtain ⟨output, hrun⟩ := hok.mp hrun
    exact h (hstarted.mpr (run_ok_iff.mp hrun).1)

end Command

/-! ## 3. One command after the other -/

/-- From one world to another, these commands have been tried in order, and the flag says that the
last one succeeded too. Between two commands the shell is left alone. -/
inductive Tried : World Shell → List Command → Bool → World Shell → Prop
  | nothing {world world' : World Shell} (h : world'.git = world.git) : Tried world [] true world'
  | once (command : Command) (world : World Shell) :
      Tried world [command] (command.run world).1.isOk (command.run world).2
  | andThen {world middle world' : World Shell} {commands more : List Command} {success : Bool}
      (h : Tried world commands true middle) (h' : Tried middle more success world') :
      Tried world (commands ++ more) success world'
  | leave {world middle world' : World Shell} {commands : List Command} {success : Bool}
      (h : Tried world commands success middle) (h' : world'.git = middle.git) :
      Tried world commands success world'

namespace Tried

variable {world world' : World Shell} {commands : List Command} {success : Bool}

/-- The attempts that the commands went down as: all but the last succeeded, and the flag is the
verdict on the last. -/
theorem recorded (h : Tried world commands success world') :
    ∃ attempts, world'.git.attempts = world.git.attempts ++ attempts
      ∧ world'.git.answers = world.git.answers.drop (attempts.countP Attempt.started)
      ∧ attempts.map Attempt.asked = commands.map Command.asked
      ∧ ∃ count, verdicts world.git.answers attempts =
          List.replicate count true ++ (if success then [] else [false]) := by
  induction h with
  | nothing h => exact ⟨[], by simp [h], by simp [h], rfl, 0, rfl⟩
  | once command world =>
    refine ⟨[command.attempt world], command.run_attempts world, ?_, rfl, ?_⟩
    · rw [command.run_answers]
      unfold Command.attempt
      cases hs : command.start world <;> simp [Attempt.started]
    · rw [command.verdicts_attempt]
      cases (command.run world).1.isOk
      · exact ⟨0, rfl⟩
      · exact ⟨1, rfl⟩
  | andThen h h' ih ih' =>
    obtain ⟨attempts, hattempts, hanswers, hasked, count, hverdicts⟩ := ih
    obtain ⟨attempts', hattempts', hanswers', hasked', count', hverdicts'⟩ := ih'
    refine ⟨attempts ++ attempts', ?_, ?_, ?_, count + count', ?_⟩
    · rw [hattempts', hattempts, List.append_assoc]
    · rw [hanswers', hanswers, List.drop_drop, List.countP_append]
    · simp [hasked, hasked']
    · rw [verdicts_append, hverdicts, ← hanswers, hverdicts', ← List.replicate_append_replicate]
      simp only [if_true, List.append_nil, List.append_assoc]
  | leave h h' ih => rwa [h']

end Tried

/-! ## 4. Where programs run -/

theorem started_of_verdicts {answers : List Answer} {attempts : List Attempt}
    (h : ∀ verdict ∈ verdicts answers attempts, verdict = true) :
    ∀ attempt ∈ attempts, attempt.started = true := by
  induction attempts generalizing answers with
  | nil => exact fun _ hmem => absurd hmem List.not_mem_nil
  | cons first rest ih =>
    unfold verdicts at h
    split at h
    · next hstarted =>
      rw [List.forall_mem_cons] at h ⊢
      exact ⟨hstarted, ih h.2⟩
    · rw [List.forall_mem_cons] at h
      cases h.1

/-- The program was started in the directory that was asked for, if it was started. -/
def Attempt.Placed (cwd : Location) (attempt : Attempt) : Prop :=
  ∀ place, attempt.outcome = .ok place →
    place = match attempt.dir with
      | none => cwd
      | some dir => dir.place cwd

/-- From one world to another the working directory is the same, and programs were started where they
were asked to be. -/
def InPlace (world world' : World Shell) : Prop :=
  world'.cwd = world.cwd
    ∧ ∃ attempts, world'.git.attempts = world.git.attempts ++ attempts
      ∧ ∀ attempt ∈ attempts, attempt.Placed world.cwd

namespace InPlace

variable {world middle world' : World Shell}

theorem of_eq (hcwd : world'.cwd = world.cwd) (hgit : world'.git = world.git) :
    InPlace world world' :=
  ⟨hcwd, [], by rw [hgit, List.append_nil], fun _ hmem => absurd hmem List.not_mem_nil⟩

theorem refl (world : World Shell) : InPlace world world := of_eq rfl rfl

theorem trans (h : InPlace world middle) (h' : InPlace middle world') : InPlace world world' := by
  obtain ⟨hcwd, attempts, hattempts, hplaced⟩ := h
  obtain ⟨hcwd', attempts', hattempts', hplaced'⟩ := h'
  refine ⟨hcwd'.trans hcwd, attempts ++ attempts', ?_, ?_⟩
  · rw [hattempts', hattempts, List.append_assoc]
  · rw [hcwd] at hplaced'
    exact List.forall_mem_append.mpr ⟨hplaced, hplaced'⟩

theorem run (command : Command) (world : World Shell) : InPlace world (command.run world).2 := by
  refine ⟨command.run_cwd world, [command.attempt world], command.run_attempts world, ?_⟩
  rw [List.forall_mem_singleton]
  exact fun place hplace => Command.place_of_start hplace

end InPlace

end PublishOnce.Program
