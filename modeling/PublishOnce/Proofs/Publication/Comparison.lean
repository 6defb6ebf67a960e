/-
PublishOnce.Proofs.Publication.Comparison — how a comparison with the remote
repository can end.

A comparison goes through four gates. Git prints a revision, the place of the
clone is free, the clone is made, its subject is read; at each gate it may end
with a failure, and behind the last one it has an answer. `Compared` has one
case for each of the five ends, and `compare_compared` says that there is no
other.

The states in between are named by the commands that lead to them
(`afterRevision`, `afterClone`, `afterRemoval`) and not by the messages said on
the way, so a case speaks of the world of a run only up to `SameGround`.
-/
import PublishOnce.Proofs.Git.Installed
import PublishOnce.Proofs.Program.Attempts
import PublishOnce.Publication.Publish

namespace PublishOnce

open Program (Shell Command Tried)
open World (SameGround)

/-! ## 1. Removing the clone -/

theorem removeClone_congr (path : Path) {world other : World Shell}
    (h : SameGround world other) :
    SameGround (removeClone path world) (removeClone path other) := by
  unfold removeClone
  rw [h.files, h.cwd]
  split
  · next files _ =>
    refine ((World.sameGround_debug ..).trans ?_).trans (World.sameGround_debug ..).symm
    exact ⟨rfl, rfl, h.home, h.git⟩
  · exact h
  · exact ((World.sameGround_say ..).trans h).trans (World.sameGround_say ..).symm

@[simp] theorem removeClone_git {G : Type} (path : Path) (world : World G) :
    (removeClone path world).git = world.git := by
  unfold removeClone
  split
  · exact (World.sameGround_debug ..).git
  · rfl
  · rfl

@[simp] theorem removeClone_cwd {G : Type} (path : Path) (world : World G) :
    (removeClone path world).cwd = world.cwd := by
  unfold removeClone
  split
  · exact (World.sameGround_debug ..).cwd
  · rfl
  · rfl

/-! ## 2. Two commands and the worlds behind them -/

/-- The command that asks for the revision. -/
def revisionCommand (settings : Settings) : Command :=
  Git.command ["rev-parse", "--short", "HEAD"] settings.source.root

/-- Where the remote repository is cloned. -/
def Settings.clonePath (settings : Settings) : Path :=
  PublishOnce.clonePath settings.target.remote settings.target.scratch

/-- The command that clones the remote repository. -/
def cloneCommand (settings : Settings) : Command :=
  Git.command ["clone", "--bare", settings.target.remote, settings.clonePath.bytes]

/-- The world in which git has been asked for the revision. -/
def afterRevision (settings : Settings) (world : World Shell) : World Shell :=
  ((revisionCommand settings).run world).2

/-- The world in which git has been asked for a clone as well. -/
def afterClone (settings : Settings) (world : World Shell) : World Shell :=
  ((cloneCommand settings).run (afterRevision settings world)).2

/-- The world in which the clone is gone again. -/
def afterRemoval (settings : Settings) (world : World Shell) : World Shell :=
  removeClone settings.clonePath (afterClone settings world)

@[simp] theorem afterRemoval_cwd (settings : Settings) (world : World Shell) :
    (afterRemoval settings world).cwd = world.cwd := by
  unfold afterRemoval afterClone afterRevision
  rw [removeClone_cwd, Command.run_cwd, Command.run_cwd]

/-! ## 3. The four gates -/

/-- Git printed a revision. -/
def Printed (settings : Settings) (world : World Shell) (revision : String) : Prop :=
  ∃ output, ((revisionCommand settings).run world).1 = .ok output
    ∧ Git.revisionIn output = revision ∧ revision ≠ ""

/-- Nothing was in the place of the clone. -/
def PlaceFree (settings : Settings) (world : World Shell) : Prop :=
  (afterRevision settings world).files.pathExists world.cwd settings.clonePath = false

/-- Git made a clone. -/
def Cloned (settings : Settings) (world : World Shell) : Prop :=
  ((cloneCommand settings).run (afterRevision settings world)).1.isOk = true

/-- What reading the subject of the clone comes to. -/
def subjectRead (settings : Settings) (world : World Shell) : Except Failure (Option String) :=
  Git.subjectAt (afterClone settings world).files world.cwd settings.clonePath

/-- All four gates stood open: this is the revision, and this the subject of the remote
repository. -/
structure Seen (settings : Settings) (world : World Shell) (revision : String)
    (subject : Option String) : Prop where
  printed : Printed settings world revision
  free : PlaceFree settings world
  cloned : Cloned settings world
  read : subjectRead settings world = .ok subject

theorem Printed.unique {settings : Settings} {world : World Shell} {revision other : String}
    (h : Printed settings world revision) (h' : Printed settings world other) :
    revision = other := by
  obtain ⟨output, hrun, hrevision, -⟩ := h
  obtain ⟨output', hrun', hother, -⟩ := h'
  rw [hrun, Except.ok.injEq] at hrun'
  rw [← hrevision, ← hother, hrun']

/-! ## 4. The five ends -/

/-- How a comparison ends, gate by gate. -/
inductive Compared (settings : Settings) (world : World Shell) :
    Except Failure Comparison → World Shell → Prop
  | unprinted {reason : Failure} {world' : World Shell}
      (printed : ∀ revision, ¬ Printed settings world revision)
      (ground : SameGround world' (afterRevision settings world)) :
      Compared settings world (.error reason) world'
  | occupied {revision : String} {world' : World Shell}
      (printed : Printed settings world revision) (free : ¬ PlaceFree settings world)
      (ground : SameGround world' (afterRevision settings world)) :
      Compared settings world (.error (.cloneDirOccupied settings.clonePath)) world'
  | uncloned {revision : String} {reason : Failure} {world' : World Shell}
      (printed : Printed settings world revision) (free : PlaceFree settings world)
      (cloned : ((cloneCommand settings).run (afterRevision settings world)).1 = .error reason)
      (ground : SameGround world' (afterRemoval settings world)) :
      Compared settings world (.error (.during (.cloning settings.target.remote) reason)) world'
  | unread {revision : String} {reason : Failure} {world' : World Shell}
      (printed : Printed settings world revision) (free : PlaceFree settings world)
      (cloned : Cloned settings world) (read : subjectRead settings world = .error reason)
      (ground : SameGround world' (afterRemoval settings world)) :
      Compared settings world (.error reason) world'
  | compared {revision : String} {subject : Option String} {world' : World Shell}
      (seen : Seen settings world revision subject)
      (ground : SameGround world' (afterRemoval settings world)) :
      Compared settings world
        (.ok { revision, expected := settings.commitMessage revision, remote := subject }) world'

/-- Cloning and reading, before anything is removed. -/
theorem cloneBare_lastSubject_apply (remote : String) (into : Path) (world : World Shell) :
    (Git.cloneBare remote into >>= fun _ => Git.lastSubject into : Act Shell _) world =
      match (Git.command ["clone", "--bare", remote, into.bytes]).run world with
      | (.error reason, world) => (.error (.during (.cloning remote) reason), world)
      | (.ok _, world) => (Git.subjectAt world.files world.cwd into, world) := by
  rw [Act.bind_apply, Git.cloneBare_shell, Git.lastSubject_shell, Git.installedCloneBare_apply]
  rcases (Git.command ["clone", "--bare", remote, into.bytes]).run world with ⟨_ | output, world⟩
  · rfl
  · exact Git.installedLastSubject_apply world into

/-- The look at the remote repository: an occupied place is not touched, and whatever git makes is
removed again. -/
theorem remoteSubject_apply (settings : Settings) (world : World Shell) :
    remoteSubject settings.target.remote settings.target.scratch world =
      if world.files.pathExists world.cwd settings.clonePath then
        (.error (.cloneDirOccupied settings.clonePath), world)
      else
        match (cloneCommand settings).run world with
        | (.error reason, world) =>
          (.error (.during (.cloning settings.target.remote) reason),
            removeClone settings.clonePath world)
        | (.ok _, world) =>
          (Git.subjectAt world.files world.cwd settings.clonePath,
            removeClone settings.clonePath world) := by
  unfold remoteSubject cloneCommand Settings.clonePath
  generalize clonePath settings.target.remote settings.target.scratch = path
  simp only [Act.bind_apply, Act.get_apply]
  by_cases hoccupied : world.files.pathExists world.cwd path = true
  · rw [if_pos hoccupied, if_pos hoccupied, Act.bind_apply, Act.throw_apply]
  · rw [if_neg hoccupied, if_neg hoccupied]
    simp only [Act.thenAlways_apply, cloneBare_lastSubject_apply]
    rcases (Git.command ["clone", "--bare", settings.target.remote, path.bytes]).run world
      with ⟨_ | output, world⟩
    · simp only
    · simp only

/-- A comparison without the transformers. -/
theorem compare_apply (settings : Settings) (world : World Shell) :
    compare settings world =
      match Git.installedShortHead settings.source.root world with
      | (.error reason, world) => (.error reason, world)
      | (.ok revision, world) =>
        let said := world.say ⟨"deploy", "Current repository hash: " ++ revision, false⟩
        let looked := remoteSubject settings.target.remote settings.target.scratch said
        (looked.1.map (⟨revision, settings.commitMessage revision, ·⟩), looked.2) := by
  unfold compare
  rw [Act.bind_apply, Git.shortHead_shell]
  rcases Git.installedShortHead settings.source.root world with ⟨_ | revision, world⟩
  · rfl
  · simp only [Act.bind_apply, Act.log_apply]
    rcases remoteSubject settings.target.remote settings.target.scratch
        (world.say ⟨"deploy", "Current repository hash: " ++ revision, false⟩)
      with ⟨_ | subject, world⟩ <;> rfl

theorem not_printed_of_error {settings : Settings} {world : World Shell} {reason : Failure}
    (h : ((revisionCommand settings).run world).1 = .error reason) (revision : String) :
    ¬ Printed settings world revision := by
  rintro ⟨output, hrun, -⟩
  rw [h] at hrun
  cases hrun

theorem not_printed_of_blank {settings : Settings} {world : World Shell} {output : Program.Output}
    (h : ((revisionCommand settings).run world).1 = .ok output)
    (hblank : (Git.revisionIn output).isEmpty = true) (revision : String) :
    ¬ Printed settings world revision := by
  rintro ⟨output', hrun, hrevision, hne⟩
  rw [h, Except.ok.injEq] at hrun
  subst hrun
  exact hne (hrevision ▸ String.isEmpty_iff.mp hblank)

variable {settings : Settings} {world said : World Shell} {revision : String}

/-- Behind the first gate: the look at the remote repository, whatever has been said so far. -/
theorem compared_of_printed (printed : Printed settings world revision)
    (ground : SameGround said (afterRevision settings world)) :
    let looked := remoteSubject settings.target.remote settings.target.scratch said
    Compared settings world (looked.1.map (⟨revision, settings.commitMessage revision, ·⟩))
      looked.2 := by
  have hcwd : said.cwd = world.cwd := ground.cwd.trans (Command.run_cwd ..)
  have hplace : said.files.pathExists said.cwd settings.clonePath = false ↔
      PlaceFree settings world := by
    unfold PlaceFree
    rw [ground.files, hcwd]
  obtain ⟨houtcome, hbehind⟩ := Command.run_congr (cloneCommand settings) ground
  simp only [remoteSubject_apply]
  by_cases hoccupied : said.files.pathExists said.cwd settings.clonePath = true
  · rw [if_pos hoccupied]
    refine .occupied printed ?_ ground
    rw [← hplace, hoccupied]
    simp
  · rw [if_neg hoccupied]
    have free : PlaceFree settings world := hplace.mp (by simpa using hoccupied)
    rcases hrun : (cloneCommand settings).run said with ⟨_ | output, cloned⟩
    · next reason =>
      rw [hrun] at houtcome hbehind
      simp only [Except.map] at houtcome hbehind ⊢
      exact .uncloned printed free houtcome.symm (removeClone_congr _ hbehind)
    · rw [hrun] at houtcome hbehind
      simp only at houtcome hbehind ⊢
      have hread : Git.subjectAt cloned.files cloned.cwd settings.clonePath =
          subjectRead settings world := by
        unfold subjectRead afterClone
        rw [hbehind.files, hbehind.cwd, Command.run_cwd, ← ground.cwd, hcwd]
      have hcloned : Cloned settings world := by
        unfold Cloned
        rw [← houtcome]
        rfl
      rw [hread]
      cases read : subjectRead settings world with
      | error reason => exact .unread printed free hcloned read (removeClone_congr _ hbehind)
      | ok subject =>
        exact .compared ⟨printed, free, hcloned, read⟩ (removeClone_congr _ hbehind)

/-- Every comparison ends in one of the five ways. -/
theorem compare_compared (settings : Settings) (world : World Shell) :
    Compared settings world (compare settings world).1 (compare settings world).2 := by
  have hask : Git.installedShortHead settings.source.root world =
      match (revisionCommand settings).run world with
      | (.error reason, world) =>
        (.error (.during (.resolvingHead settings.source.root) reason), world)
      | (.ok output, world) =>
        if (Git.revisionIn output).isEmpty then (.error (.noRevision settings.source.root), world)
        else (.ok (Git.revisionIn output), world) :=
    Git.installedShortHead_apply world settings.source.root
  rw [compare_apply, hask]
  rcases hrun : (revisionCommand settings).run world with ⟨reason | output, asked⟩
  · have ground : SameGround asked (afterRevision settings world) := by
      unfold afterRevision
      rw [hrun]
      exact .refl _
    exact .unprinted (not_printed_of_error (by rw [hrun])) ground
  · have ground : SameGround asked (afterRevision settings world) := by
      unfold afterRevision
      rw [hrun]
      exact .refl _
    simp only
    by_cases hblank : (Git.revisionIn output).isEmpty = true
    · rw [if_pos hblank]
      exact .unprinted (not_printed_of_blank (by rw [hrun]) hblank) ground
    · rw [if_neg hblank]
      simp only
      have printed : Printed settings world (Git.revisionIn output) :=
        ⟨output, by rw [hrun], rfl, fun h => hblank (String.isEmpty_iff.mpr h)⟩
      exact compared_of_printed printed ((World.sameGround_say ..).trans ground)

/-! ## 5. What a comparison has tried -/

theorem not_cloned_of_error {reason : Failure}
    (h : ((cloneCommand settings).run (afterRevision settings world)).1 = .error reason) :
    ¬ Cloned settings world := by
  unfold Cloned
  rw [h]
  exact Bool.false_ne_true

theorem tried_revision (settings : Settings) (world : World Shell) :
    Tried world [revisionCommand settings] ((revisionCommand settings).run world).1.isOk
      (afterRevision settings world) :=
  .once (revisionCommand settings) world

theorem Printed.tried (h : Printed settings world revision) :
    Tried world [revisionCommand settings] true (afterRevision settings world) := by
  have htried := tried_revision settings world
  obtain ⟨output, hrun, -⟩ := h
  rwa [hrun] at htried

theorem Printed.tried_clone (h : Printed settings world revision) :
    Tried world [revisionCommand settings, cloneCommand settings]
      ((cloneCommand settings).run (afterRevision settings world)).1.isOk
      (afterRemoval settings world) := by
  have hclone := Tried.once (cloneCommand settings) (afterRevision settings world)
  exact (h.tried.andThen hclone).leave (removeClone_git ..)

theorem Seen.tried {subject : Option String} (h : Seen settings world revision subject) :
    Tried world [revisionCommand settings, cloneCommand settings] true
      (afterRemoval settings world) := by
  have htried := h.printed.tried_clone
  rwa [h.cloned] at htried

/-- A comparison that fails has tried one of its two commands or both. -/
theorem Compared.tried_of_error {reason : Failure} {world' : World Shell}
    (h : Compared settings world (.error reason) world') :
    ∃ commands success, Tried world commands success world'
      ∧ commands <+: [revisionCommand settings, cloneCommand settings] := by
  cases h with
  | unprinted printed ground =>
    exact ⟨_, _, (tried_revision settings world).leave ground.git, by simp⟩
  | occupied printed free ground => exact ⟨_, _, printed.tried.leave ground.git, by simp⟩
  | uncloned printed free cloned ground =>
    exact ⟨_, _, printed.tried_clone.leave ground.git, List.prefix_rfl⟩
  | unread printed free cloned read ground =>
    exact ⟨_, _, printed.tried_clone.leave ground.git, List.prefix_rfl⟩

/-! ## 6. The answer -/

theorem Seen.unique {subject other : Option String} {revision' : String}
    (h : Seen settings world revision subject) (h' : Seen settings world revision' other) :
    revision = revision' ∧ subject = other := by
  refine ⟨h.printed.unique h'.printed, ?_⟩
  have hread := h'.read
  rw [h.read, Except.ok.injEq] at hread
  exact hread

/-- A comparison that fails has come upon a closed gate. -/
theorem Compared.not_seen_of_error {reason : Failure} {world' : World Shell}
    (h : Compared settings world (.error reason) world') (revision : String)
    (subject : Option String) : ¬ Seen settings world revision subject := by
  intro seen
  cases h with
  | unprinted printed ground => exact printed revision seen.printed
  | occupied printed free ground => exact free seen.free
  | uncloned printed free cloned ground => exact not_cloned_of_error cloned seen.cloned
  | unread printed free cloned read ground =>
    rw [seen.read] at read
    cases read

/-- A comparison has an answer exactly if all four gates stood open. -/
theorem compare_eq_ok_iff {comparison : Comparison} :
    (compare settings world).1 = .ok comparison ↔
      ∃ revision subject, Seen settings world revision subject
        ∧ comparison = ⟨revision, settings.commitMessage revision, subject⟩ := by
  have hcompared := compare_compared settings world
  constructor
  · intro h
    rw [h] at hcompared
    cases hcompared with
    | compared seen ground => exact ⟨_, _, seen, rfl⟩
  · rintro ⟨revision, subject, seen, rfl⟩
    cases houtcome : (compare settings world).1 with
    | error reason =>
      rw [houtcome] at hcompared
      exact absurd seen (hcompared.not_seen_of_error revision subject)
    | ok comparison =>
      rw [houtcome] at hcompared
      cases hcompared with
      | compared seen' ground =>
        obtain ⟨rfl, rfl⟩ := seen.unique seen'
        rfl

end PublishOnce
