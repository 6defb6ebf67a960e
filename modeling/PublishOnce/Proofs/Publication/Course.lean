/-
PublishOnce.Proofs.Publication.Course — the course of a publication, command by
command.

A publication asks git for nine things at most, and which nine, in which
directories and in which order is known as soon as the revision is: `course`
writes them down. What a run has really asked for is a beginning of that list
which stops behind the first command that fails.

The step lemma is `tried_runStep`; `tried_runSteps` carries it through the list
of steps. The look at the remote repository that comes before them is taken
from `Proofs.Publication.Comparison`, one case for each way it can end.
-/
import PublishOnce.Proofs.Publication.Comparison

namespace PublishOnce

open Program (Shell Command Tried)
open World (SameGround)

/-! ## 1. Steps -/

/-- A step is run and reported on, whatever git is. -/
theorem runStep_eq {G : Type} [Git G] (dir : Path) (step : Step) (world : World G) :
    runStep dir step world =
      match (Git.run dir step.args : Act G Unit) world with
      | (.error reason, world) =>
        (.error (.during (.publishing step) reason), world.say (.failed step.text))
      | (.ok _, world) => (.ok (), world.say (.done step.text)) := by
  unfold runStep
  rw [Act.bind_apply, Act.tryCatch_apply]
  rcases (Git.run dir step.args : Act G Unit) world with ⟨_ | _, ran⟩
  · simp only [Act.bind_apply, Act.modify_apply, Act.throw_apply]
  · simp only [Act.modify_apply]

/-- The command of a step. -/
def stepCommand (dir : Path) (step : Step) : Command :=
  Git.command (step.args.map Bytes.ofString) dir

theorem runStep_apply (dir : Path) (step : Step) (world : World Shell) :
    runStep dir step world =
      match (stepCommand dir step).run world with
      | (.error reason, world) =>
        (.error (.during (.publishing step) reason), world.say (.failed step.text))
      | (.ok _, world) => (.ok (), world.say (.done step.text)) := by
  unfold stepCommand
  rw [runStep_eq, Git.run_shell, Git.installedRun_apply]
  rcases (Git.command (step.args.map Bytes.ofString) dir).run world with ⟨_ | output, world⟩ <;> rfl

/-- A step is one command, and it succeeds with its command. -/
theorem tried_runStep (dir : Path) (step : Step) (world : World Shell) :
    Tried world [stepCommand dir step] (runStep dir step world).1.isOk
      (runStep dir step world).2 := by
  have htried := Tried.once (stepCommand dir step) world
  rw [runStep_apply]
  rcases hrun : (stepCommand dir step).run world with ⟨_ | output, world'⟩
  · rw [hrun] at htried
    exact htried.leave rfl
  · rw [hrun] at htried
    exact htried.leave rfl

/-- The steps that were tried are the first ones of the list, and all of it if all succeeded. -/
theorem tried_runSteps (dir : Path) (steps : List Step) (world : World Shell) :
    ∃ tried, tried <+: steps
      ∧ Tried world (tried.map (stepCommand dir)) (runSteps dir steps world).1.isOk
          (runSteps dir steps world).2
      ∧ ((runSteps dir steps world).1.isOk = true → tried = steps)
      ∧ (steps ≠ [] → tried ≠ []) := by
  induction steps generalizing world with
  | nil => exact ⟨[], List.prefix_rfl, .nothing rfl, fun _ => rfl, fun h => h⟩
  | cons step rest ih =>
    have hstep := tried_runStep dir step world
    unfold runSteps
    rw [Act.bind_apply]
    rcases hrun : runStep dir step world with ⟨_ | _, world'⟩
    · rw [hrun] at hstep
      exact ⟨[step], by simp, hstep, fun h => Bool.noConfusion h, by simp⟩
    · rw [hrun] at hstep
      obtain ⟨tried, hprefix, htried, hall, -⟩ := ih world'
      refine ⟨step :: tried, ?_, hstep.andThen htried, ?_, by simp⟩
      · exact (List.prefix_cons_inj step).mpr hprefix
      · intro hok
        rw [hall hok]

/-! ## 2. How a publication ends -/

/-- How a publication ends: the comparison fails, or the remote repository is up to date, or there
is nothing to publish, or the steps are run. -/
inductive Ended (settings : Settings) (world : World Shell) :
    Except Failure Outcome → World Shell → Prop
  | failed {reason : Failure} {world' : World Shell}
      (compared : Compared settings world (.error reason) world') :
      Ended settings world (.error reason) world'
  | current {revision : String} {world' : World Shell}
      (seen : Seen settings world revision (some (settings.commitMessage revision)))
      (ground : SameGround world' (afterRemoval settings world)) :
      Ended settings world (.ok .upToDate) world'
  | missing {revision : String} {subject : Option String} {world' : World Shell}
      (seen : Seen settings world revision subject)
      (stale : subject ≠ some (settings.commitMessage revision))
      (dir : (afterRemoval settings world).files.isDir world.cwd settings.target.dir = false)
      (ground : SameGround world' (afterRemoval settings world)) :
      Ended settings world (.error (.publishDirMissing settings.target.dir)) world'
  | pushed {revision : String} {subject : Option String} {said : World Shell}
      (seen : Seen settings world revision subject)
      (stale : subject ≠ some (settings.commitMessage revision))
      (dir : (afterRemoval settings world).files.isDir world.cwd settings.target.dir = true)
      (ground : SameGround said (afterRemoval settings world)) :
      Ended settings world
        ((runSteps settings.target.dir
          (publicationPlan settings (settings.commitMessage revision)) said).1.map fun _ => .published)
        (runSteps settings.target.dir
          (publicationPlan settings (settings.commitMessage revision)) said).2

theorem publish_apply {G : Type} [Git G] (settings : Settings) (world : World G) :
    publish settings world =
      match compare settings world with
      | (.error reason, world) => (.error reason, world)
      | (.ok comparison, world) =>
        if comparison.isCurrent then (.ok .upToDate, world.say ⟨"deploy", "Already up to date", false⟩)
        else
          let pushed := pushOutput settings comparison.expected (world.say ⟨"deploy", "Deploy", false⟩)
          (pushed.1.map fun _ => .published, pushed.2) := by
  unfold publish
  rw [Act.bind_apply]
  rcases compare settings world with ⟨_ | comparison, world⟩
  · rfl
  · simp only
    by_cases hcurrent : comparison.isCurrent = true
    · simp only [hcurrent, if_true, Act.bind_apply, Act.log_apply, Act.pure_apply]
    · simp only [hcurrent, Bool.false_eq_true, if_false, Act.bind_apply, Act.log_apply]
      rcases pushOutput settings comparison.expected (world.say ⟨"deploy", "Deploy", false⟩)
        with ⟨_ | _, world⟩ <;> rfl

theorem pushOutput_apply {G : Type} [Git G] (settings : Settings) (message : String)
    (world : World G) :
    pushOutput settings message world =
      if world.files.isDir world.cwd settings.target.dir then
        runSteps settings.target.dir (publicationPlan settings message) world
      else (.error (.publishDirMissing settings.target.dir), world) := by
  unfold pushOutput
  rw [Act.bind_apply, Act.get_apply]
  by_cases hdir : world.files.isDir world.cwd settings.target.dir = true
  · simp [hdir]
  · simp [hdir, Act.bind_apply]

/-- Every publication ends in one of the four ways. -/
theorem publish_ended (settings : Settings) (world : World Shell) :
    Ended settings world (publish settings world).1 (publish settings world).2 := by
  have hcompared := compare_compared settings world
  rw [publish_apply]
  rcases hcompare : compare settings world with ⟨reason | comparison, world'⟩
  · rw [hcompare] at hcompared
    exact .failed hcompared
  · rw [hcompare] at hcompared
    cases hcompared with
    | @compared revision subject _ seen ground =>
      simp only [Comparison.isCurrent, decide_eq_true_eq]
      by_cases hcurrent : subject = some (settings.commitMessage revision)
      · subst hcurrent
        rw [if_pos rfl]
        exact .current seen ((World.sameGround_say ..).trans ground)
      · rw [if_neg hcurrent]
        generalize hsaid : world'.say ⟨"deploy", "Deploy", false⟩ = said
        have hground : SameGround said (afterRemoval settings world) :=
          hsaid ▸ (World.sameGround_say ..).trans ground
        simp only [pushOutput_apply, hground.files, hground.cwd, afterRemoval_cwd]
        by_cases hdir : (afterRemoval settings world).files.isDir world.cwd settings.target.dir
        · rw [if_pos hdir]
          exact .pushed seen hcurrent hdir hground
        · rw [if_neg hdir]
          exact .missing seen hcurrent (by simpa using hdir) hground

/-! ## 3. The commands of a publication -/

/-- The nine commands of a publication: the revision, the clone, and the steps that publish with
the message for the revision. -/
def course (settings : Settings) (revision : String) : List Command :=
  revisionCommand settings :: cloneCommand settings ::
    (publicationPlan settings (settings.commitMessage revision)).map
      (stepCommand settings.target.dir)

/-- The arguments under the settings that nobody has changed. -/
example : (course {} "abc1234").map Command.args = List.map (List.map Bytes.ofString)
    [["rev-parse", "--short", "HEAD"],
     ["clone", "--bare", "git@github.com:mirkootter/math-demo.git", "./math-demo.git"],
     ["init", "-b", "main"], ["config", "user.name", "rustmath-bot"], ["config", "user.email", ""],
     ["add", "-A"], ["commit", "-m", "Update to abc1234"],
     ["remote", "add", "origin", "git@github.com:mirkootter/math-demo.git"],
     ["push", "-f", "origin", "main"]] := by
  decide +kernel

theorem length_course (settings : Settings) (revision : String) :
    (course settings revision).length = 9 := rfl

/-- The gate in front of the steps: the remote repository has been seen and carries another message
or none, and there is a directory to publish. -/
def Due (settings : Settings) (world : World Shell) (revision : String) : Prop :=
  (∃ subject, Seen settings world revision subject
      ∧ subject ≠ some (settings.commitMessage revision))
    ∧ (afterRemoval settings world).files.isDir world.cwd settings.target.dir = true

/-- A publication tries a beginning of its course, comes to the steps exactly if they are due, and
ends well exactly if nothing of the course is left or nothing needed to be done. -/
theorem Ended.tried {settings : Settings} {world world' : World Shell}
    {outcome : Except Failure Outcome} (h : Ended settings world outcome world') :
    ∃ revision commands success, Tried world commands success world'
      ∧ commands <+: course settings revision
      ∧ (∀ revision' subject, Seen settings world revision' subject → revision' = revision)
      ∧ (2 < commands.length ↔ Due settings world revision)
      ∧ (outcome = .ok .published ↔ commands = course settings revision ∧ success = true)
      ∧ (outcome = .ok .upToDate ↔
          Seen settings world revision (some (settings.commitMessage revision))) := by
  have hlook : ∀ revision, [revisionCommand settings, cloneCommand settings]
      <+: course settings revision := fun revision => ⟨_, rfl⟩
  have hshort : ∀ {commands : List Command} {revision},
      commands.length ≤ 2 → commands ≠ course settings revision := fun hle heq => by
    rw [heq, length_course] at hle
    omega
  cases h with
  | failed compared =>
    have hseen := compared.not_seen_of_error
    obtain ⟨commands, success, htried, hprefix⟩ := compared.tried_of_error
    have hle : commands.length ≤ 2 := hprefix.length_le
    refine ⟨"", commands, success, htried, hprefix.trans (hlook _), ?_, ?_, ?_, ?_⟩
    · exact fun revision subject seen => absurd seen (hseen revision subject)
    · simp only [Due, hseen, false_and, exists_false, iff_false]
      omega
    · simp [hshort hle]
    · simp [hseen]
  | @current revision _ seen ground =>
    refine ⟨revision, _, _, seen.tried.leave ground.git, hlook _, ?_, ?_, ?_, by simp [seen]⟩
    · exact fun _ _ seen' => (seen'.unique seen).1
    · simp only [List.length_cons, List.length_nil, Nat.lt_irrefl, false_iff]
      rintro ⟨⟨subject, seen', hstale⟩, -⟩
      exact hstale (seen'.unique seen).2
    · simp [hshort]
  | @missing revision subject _ seen stale dir ground =>
    refine ⟨revision, _, _, seen.tried.leave ground.git, hlook _, ?_, ?_, ?_, ?_⟩
    · exact fun _ _ seen' => (seen'.unique seen).1
    · simp [Due, dir]
    · simp [hshort]
    · simp only [reduceCtorEq, false_iff]
      exact fun seen' => stale (seen.unique seen').2
  | @pushed revision subject said seen stale dir ground =>
    obtain ⟨tried, hprefix, htried, hall, hsome⟩ := tried_runSteps settings.target.dir
      (publicationPlan settings (settings.commitMessage revision)) said
    have hcurrent : ¬ Seen settings world revision (some (settings.commitMessage revision)) :=
      fun seen' => stale (seen.unique seen').2
    refine ⟨revision, [revisionCommand settings, cloneCommand settings] ++ tried.map _, _,
      (seen.tried.leave ground.git).andThen htried, ?_, ?_, ?_, ?_, ?_⟩
    · obtain ⟨rest, hrest⟩ := hprefix
      exact ⟨rest.map (stepCommand settings.target.dir), by simp [course, ← hrest]⟩
    · exact fun _ _ seen' => (seen'.unique seen).1
    · have hpos : 0 < tried.length := List.length_pos_iff.mpr (hsome (by simp [publicationPlan]))
      simp only [List.length_append, List.length_cons, List.length_nil, List.length_map]
      exact iff_of_true (by omega) ⟨⟨subject, seen, stale⟩, dir⟩
    · cases hrun : (runSteps settings.target.dir
        (publicationPlan settings (settings.commitMessage revision)) said).1 with
      | error reason => simp [Except.map, Except.isOk, Except.toBool]
      | ok _ =>
        rw [hall (by rw [hrun]; rfl)]
        simp [Except.map, Except.isOk, Except.toBool, course]
    · simp only [hcurrent, iff_false]
      cases (runSteps settings.target.dir
        (publicationPlan settings (settings.commitMessage revision)) said).1 <;> simp [Except.map]

/-! ## 4. The record of a publication -/

end PublishOnce
