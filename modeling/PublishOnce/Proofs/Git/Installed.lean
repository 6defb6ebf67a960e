/-
PublishOnce.Proofs.Git.Installed — what the git program is asked, and what is
made of its answers.

Each of the four things that publishing needs of git is one command at most, so
each is described by one equation: the outcome in terms of the outcome of the
command, and the world that the command leaves. Reading a subject is no command
and leaves the world as it is.
-/
import PublishOnce.Git.Installed
import PublishOnce.Proofs.Program.Running

namespace PublishOnce.Git

open Program (Shell Output Command)

/-- The revision in what git printed. -/
def revisionIn (output : Output) : String := Text.trim (Text.Utf8.decodeLossy output.out)

/-- The subject of the latest commit in the clone at a path. -/
def subjectAt (files : FileTree) (cwd : Location) (bare : Path) :
    Except Failure (Option String) :=
  match Repository.open? files cwd bare with
  | none => .error (.repository (.notOpened bare))
  | some repository => repository.lastSubject.mapError .repository

/-! The four things, as publishing names them. -/

@[simp] theorem shortHead_shell (repo : Path) :
    (shortHead repo : Act Shell String) = installedShortHead repo := rfl

@[simp] theorem cloneBare_shell (remote : String) (into : Path) :
    (cloneBare remote into : Act Shell Unit) = installedCloneBare remote into := rfl

@[simp] theorem lastSubject_shell (bare : Path) :
    (lastSubject bare : Act Shell (Option String)) = installedLastSubject bare := rfl

@[simp] theorem run_shell (dir : Path) (args : List String) :
    (run dir args : Act Shell Unit) = installedRun dir args := rfl

variable (world : World Shell)

theorem installedShortHead_apply (repo : Path) :
    installedShortHead repo world =
      match (command ["rev-parse", "--short", "HEAD"] repo).run world with
      | (.error reason, world) => (.error (.during (.resolvingHead repo) reason), world)
      | (.ok output, world) =>
        if (revisionIn output).isEmpty then (.error (.noRevision repo), world)
        else (.ok (revisionIn output), world) := by
  unfold installedShortHead revisionIn
  rw [Act.bind_apply, Act.during_apply]
  rcases (command ["rev-parse", "--short", "HEAD"] repo).run world with ⟨_ | output, world⟩
  · rfl
  · simp only [Except.mapError]
    split <;> rfl

theorem installedCloneBare_apply (remote : String) (into : Path) :
    installedCloneBare remote into world =
      match (command ["clone", "--bare", remote, into.bytes]).run world with
      | (.error reason, world) => (.error (.during (.cloning remote) reason), world)
      | (.ok _, world) => (.ok (), world) := by
  unfold installedCloneBare
  rw [Act.bind_apply, Act.during_apply]
  rcases (command ["clone", "--bare", remote, into.bytes]).run world with ⟨_ | output, world⟩ <;> rfl

theorem installedLastSubject_apply (bare : Path) :
    installedLastSubject bare world = (subjectAt world.files world.cwd bare, world) := by
  unfold installedLastSubject subjectAt
  rw [Act.bind_apply, Act.get_apply]
  simp only
  cases Repository.open? world.files world.cwd bare with
  | none => rfl
  | some repository =>
    simp only
    cases repository.lastSubject <;> rfl

theorem installedRun_apply (dir : Path) (args : List String) :
    installedRun dir args world =
      match (command (args.map Bytes.ofString) dir).run world with
      | (.error reason, world) => (.error reason, world)
      | (.ok _, world) => (.ok (), world) := by
  unfold installedRun
  rw [Act.bind_apply]
  rcases (command (args.map Bytes.ofString) dir).run world with ⟨_ | output, world⟩ <;> rfl

/-- What a command in a directory leaves is what the command leaves. -/
theorem run_shell_snd (dir : Path) (args : List String) :
    ((run dir args : Act Shell Unit) world).2 =
      ((command (args.map Bytes.ofString) dir).run world).2 := by
  rw [run_shell, installedRun_apply]
  rcases (command (args.map Bytes.ofString) dir).run world with ⟨_ | _, ran⟩ <;> rfl

end PublishOnce.Git
