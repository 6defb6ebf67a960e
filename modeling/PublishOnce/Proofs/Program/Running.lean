/-
PublishOnce.Proofs.Program.Running — what running one command can do.

`run_apply` opens the routine once; nothing after it does. A command is refused
or started, and a started one fails or succeeds, and each of the three says
exactly what becomes of the world. `run_congr` is the other half: what was said
before a command has no influence on it.
-/
import PublishOnce.Program.Command
import PublishOnce.Proofs.Act
import PublishOnce.Proofs.FileTree.Places

namespace PublishOnce.Program

open World (SameGround)

/-! ## 1. The next answer -/

theorem Shell.nextAnswer_fst (shell : Shell) :
    shell.nextAnswer.1 = shell.answers.headD {} := by
  unfold Shell.nextAnswer
  cases shell.answers <;> rfl

theorem Shell.nextAnswer_snd (shell : Shell) :
    shell.nextAnswer.2 = { shell with answers := shell.answers.tail } := by
  unfold Shell.nextAnswer
  split
  · next answer rest h => simp [h]
  · next h => cases shell; simp_all

namespace Command

variable {command : Command} {world other : World Shell}

/-! ## 2. Starting -/

/-- Whether and where a command starts is a matter of the ground. -/
theorem start_congr (command : Command) (h : SameGround world other) :
    command.start world = command.start other := by
  unfold start startPlace
  rw [h.cwd, h.files, h.git]

@[simp] theorem start_debug (command : Command) (world : World Shell) (origin text : String) :
    command.start (world.debug origin text) = command.start world :=
  start_congr command (World.sameGround_debug world origin text)

/-- The place in which a command runs if it is started. -/
def place (command : Command) (cwd : Location) : Location :=
  match command.dir with
  | none => cwd
  | some dir => dir.place cwd

theorem place_of_start {found : Location} (h : command.start world = .ok found) :
    found = command.place world.cwd := by
  have hplace : command.startPlace world = .ok found := by
    unfold start at h
    split at h
    · cases h
    · cases hstart : command.startPlace world with
      | error reason =>
        rw [hstart] at h
        cases h
      | ok place =>
        rw [hstart] at h
        simp only [bind, Except.bind] at h
        split at h
        · cases h
        · exact h
  unfold startPlace at hplace
  unfold Command.place
  cases hdir : command.dir with
  | none =>
    simp only [hdir, Except.ok.injEq] at hplace
    exact hplace.symm
  | some dir =>
    simp only [hdir] at hplace
    cases hresolved : world.files.resolve world.cwd dir with
    | error reason => simp [hresolved] at hplace
    | ok resolved =>
      obtain rfl := Path.place_of_resolve hresolved
      simp only [hresolved] at hplace
      split at hplace
      · exact (Except.ok.inj hplace).symm
      · cases hplace

/-! ## 3. Running -/

/-- The world after a command has ended well: some of its error output may be repeated. -/
def repeated (command : Command) (output : Output) (world : World Shell) : World Shell :=
  match successMessage? command.chatter command.name output with
  | some message => world.say message
  | none => world

theorem sameGround_repeated (command : Command) (output : Output) (world : World Shell) :
    SameGround (command.repeated output world) world := by
  unfold repeated
  split
  · exact World.sameGround_say ..
  · exact .refl _

/-- The world in which a command is started: its arguments have been said. -/
def announced (command : Command) (world : World Shell) : World Shell :=
  world.debug command.name command.argsText

theorem sameGround_announced (command : Command) (world : World Shell) :
    SameGround (command.announced world) world :=
  World.sameGround_debug ..

/-- A run without the transformers: refused, failed or succeeded. -/
theorem run_apply (command : Command) (world : World Shell) :
    command.run world =
      match command.start world with
      | .error reason =>
        (.error (.command (.notStarted command.name reason)),
          command.refused reason (command.announced world))
      | .ok place =>
        match judge command.name world.git.nextAnswer.1 with
        | .error reason =>
          (.error (.command reason), (command.answered place (command.announced world)).2)
        | .ok output =>
          (.ok output,
            command.repeated output (command.answered place (command.announced world)).2) := by
  have hans : ∀ place, (command.answered place (command.announced world)).1
      = world.git.nextAnswer.1 := fun place => by
    unfold answered
    rw [(sameGround_announced ..).git]
  unfold run
  simp only [Act.bind_apply, Act.debug_apply, Act.get_apply, start_debug]
  cases command.start world with
  | error reason => simp [Act.bind_apply, announced]
  | ok place =>
    simp only [Act.bind_apply, Act.get_apply, Act.set_apply]
    rw [← hans place]
    unfold announced
    cases judge command.name (command.answered place _).1 with
    | error reason => rfl
    | ok output =>
      simp only [repeated]
      cases successMessage? command.chatter command.name output <;> rfl

/-! ## 4. What a run leaves behind -/

/-- The attempt that a run goes down as. -/
def attempt (command : Command) (world : World Shell) : Attempt :=
  ⟨command.program, command.args, command.dir, command.start world⟩

/-- The world behind a command, but for what is said on the way. -/
def behind (command : Command) (world : World Shell) : World Shell :=
  match command.start world with
  | .error reason => command.refused reason world
  | .ok place => (command.answered place world).2

theorem refused_congr (command : Command) (reason : StartError) (h : SameGround world other) :
    SameGround (command.refused reason world) (command.refused reason other) :=
  ⟨h.files, h.cwd, h.home, by rw [refused, refused, h.git]⟩

theorem answered_congr (command : Command) (place : Location) (h : SameGround world other) :
    SameGround (command.answered place world).2 (command.answered place other).2 :=
  ⟨by rw [answered, answered, h.files, h.git], h.cwd, h.home, by rw [answered, answered, h.git]⟩

theorem run_ground (command : Command) (world : World Shell) :
    SameGround (command.run world).2 (command.behind world) := by
  have hsaid := sameGround_announced command world
  rw [run_apply]
  unfold behind
  cases hs : command.start world with
  | error reason => exact refused_congr command reason hsaid
  | ok place =>
    simp only
    split
    · exact answered_congr command place hsaid
    · next output _ =>
      simp only
      exact (sameGround_repeated command output _).trans (answered_congr command place hsaid)

@[simp] theorem run_cwd (command : Command) (world : World Shell) :
    (command.run world).2.cwd = world.cwd := by
  rw [(run_ground command world).cwd]
  unfold behind
  split <;> rfl

theorem run_files (command : Command) (world : World Shell) :
    (command.run world).2.files =
      match command.start world with
      | .error _ => world.files
      | .ok place => (world.git.answers.headD {}).leave world.files place command.args := by
  rw [(run_ground command world).files, ← Shell.nextAnswer_fst]
  unfold behind
  split <;> rfl

/-- Whatever comes of it, a run is one attempt. -/
theorem run_attempts (command : Command) (world : World Shell) :
    (command.run world).2.git.attempts = world.git.attempts ++ [command.attempt world] := by
  rw [(run_ground command world).git]
  unfold behind attempt
  split
  · next reason hs => simp [refused, Shell.record, hs]
  · next place hs => simp [answered, Shell.nextAnswer_snd, Shell.record, hs]

/-- Only a command that was started takes an answer. -/
theorem run_answers (command : Command) (world : World Shell) :
    (command.run world).2.git.answers =
      match command.start world with
      | .error _ => world.git.answers
      | .ok _ => world.git.answers.tail := by
  rw [(run_ground command world).git]
  unfold behind
  split
  · next reason hs => simp [refused, Shell.record]
  · next place hs => simp [answered, Shell.nextAnswer_snd, Shell.record]

/-- A run succeeds with an output exactly if the command starts and the next answer has this output
and the status zero. -/
theorem run_ok_iff {output : Output} :
    (command.run world).1 = .ok output ↔
      (∃ place, command.start world = .ok place) ∧
        (world.git.answers.headD {}).status.succeeded = true ∧
        (world.git.answers.headD {}).output = output := by
  rw [run_apply, ← Shell.nextAnswer_fst]
  cases hs : command.start world with
  | error reason => simp
  | ok place =>
    unfold judge
    by_cases hok : world.git.nextAnswer.1.status.succeeded = true
    · simp [hok]
    · simp [hok]

/-- What was said before has no influence on a run. -/
theorem run_congr (command : Command) (h : SameGround world other) :
    (command.run world).1 = (command.run other).1 ∧
      SameGround (command.run world).2 (command.run other).2 := by
  have hstart := start_congr command h
  constructor
  · rw [run_apply, run_apply, hstart, h.git]
    cases command.start other with
    | error reason => rfl
    | ok place => simp only; cases judge command.name other.git.nextAnswer.1 <;> rfl
  · refine ((run_ground command world).trans ?_).trans (run_ground command other).symm
    unfold behind
    rw [hstart]
    split
    · exact refused_congr command _ h
    · exact answered_congr command _ h

end Command

end PublishOnce.Program
