/-
PublishOnce.Proofs.Publication.Reports — the reports on the steps are true.

What git does with a list of steps is described first, in terms of its commands
alone: they succeed one after the other (`Succeeds`), or there is a first one that
fails (`FailsFirst`), and no third case. The routine that runs the steps is then
measured against that. It says of each command that succeeded that the step is
done, and of the one that failed that it failed, each once and in order, with the text of
the step behind the mark. Its failure is the failure of that command with the name of the
step in front (`pushOutput_trulyReported`).

Git is a parameter here, so that a command can fail in any way and at any time.
Only one thing is asked of it: what a command itself says is no report on a step
(`ReticentGit`). For the git of a shell this is so because all of its messages are
tagged with the name of the program.

One label is part of another, `add` of `remote add`. A text names a step where the
label stands between backticks (`IsNamedIn`), and there the two cannot be taken
for each other.
-/
import Mathlib.Data.List.Nodup
import PublishOnce.Git.Rehearsal
import PublishOnce.Proofs.Program.Outputs
import PublishOnce.Proofs.Publication.Course

namespace PublishOnce

open Program (Shell Command)

/-! ## 1. Reports -/

/-- What is said about a step once its command has ended. -/
inductive Verdict where
  | done
  | failed
  deriving DecidableEq, Repr

namespace Verdict

def origin : Verdict → String
  | .done => "deploy"
  | .failed => "error"

/-- A green check mark or a red cross, and a blank. -/
def mark : Verdict → String
  | .done => "\x1b[32m✓\x1b[39m "
  | .failed => "\x1b[31m✗\x1b[39m "

end Verdict

/-- What a message says of a step: the verdict whose tag and mark it has, and the text behind the
mark. A message with other tags, or without a mark, says nothing of a step. -/
def Message.report? (message : Message) : Option (Verdict × String) :=
  [Verdict.done, .failed].findSome? fun verdict =>
    if message.origin = verdict.origin ∧ message.debug = false
        ∧ verdict.mark.toList.isPrefixOf message.text.toList = true then
      some (verdict, String.ofList (message.text.toList.drop verdict.mark.length))
    else none

/-- Tag, mark and text are read back. -/
theorem report?_marked (verdict : Verdict) (text : String) :
    (Message.mk verdict.origin (verdict.mark ++ text) false).report? = some (verdict, text) := by
  have htext : String.ofList ((verdict.mark ++ text).toList.drop verdict.mark.length) = text := by
    rw [String.toList_append, ← String.length_toList, List.drop_left, String.ofList_toList]
  have hmark : verdict.mark.toList.isPrefixOf (verdict.mark ++ text).toList = true := by
    rw [String.toList_append, List.isPrefixOf_iff_prefix]
    exact List.prefix_append ..
  unfold Message.report?
  cases verdict with
  | done => rw [List.findSome?_cons, if_pos ⟨rfl, rfl, hmark⟩, htext]
  | failed =>
    have hother : Verdict.failed.origin ≠ Verdict.done.origin := by decide
    rw [List.findSome?_cons, if_neg fun h => hother h.1, List.findSome?_cons,
      if_pos ⟨rfl, rfl, hmark⟩, htext]

theorem report?_done (text : String) : (Message.done text).report? = some (.done, text) := by
  have hmark : Text.Ansi.Style.green.paint "✓" ++ " " = Verdict.done.mark := by decide
  rw [Message.done, hmark]
  exact report?_marked .done text

theorem report?_failed (text : String) : (Message.failed text).report? = some (.failed, text) := by
  have hmark : Text.Ansi.Style.red.paint "✗" ++ " " = Verdict.failed.mark := by decide
  rw [Message.failed, hmark]
  exact report?_marked .failed text

theorem report?_of_origin {message : Message} (hdeploy : message.origin ≠ "deploy")
    (herror : message.origin ≠ "error") : message.report? = none := by
  simp [Message.report?, Verdict.origin, hdeploy, herror]

/-- The reports in the journal of a world, in order. -/
def World.reports {G : Type} (world : World G) : List (Verdict × String) :=
  world.journal.messages.filterMap Message.report?

section
variable {G : Type} {world : World G}

theorem reports_say {message : Message} {report : Verdict × String}
    (h : message.report? = some report) : (world.say message).reports = world.reports ++ [report] := by
  simp [World.reports, World.say, Journal.say, h]

theorem reports_of_said {world' : World G} {said : List Message}
    (hsaid : world'.journal.messages = world.journal.messages ++ said)
    (h : ∀ message ∈ said, message.report? = none) : world'.reports = world.reports := by
  have hnone : said.filterMap Message.report? = [] := List.filterMap_eq_nil_iff.mpr h
  unfold World.reports
  rw [hsaid, List.filterMap_append, hnone, List.append_nil]

end

/-! ## 2. A git that says what it says in its own name -/

/-- A git whose commands write no reports on steps, and leave those that there are. -/
class ReticentGit (G : Type) [Git G] : Prop where
  reports_run (dir : Path) (args : List String) (world : World G) :
    ((Git.run dir args : Act G Unit) world).2.reports = world.reports

theorem Git.name_command (args : List Bytes) (dir : Option Path) :
    (Git.command args dir).name = "git" := by
  change ((Path.ofText "git").fileStem?.getD (Bytes.ofString "git")).toText = "git"
  decide +kernel

instance : ReticentGit Shell where
  reports_run dir args world := by
    obtain ⟨said, hsaid, horigin⟩ := (Git.command (args.map Bytes.ofString) dir).origin_run world
    rw [Git.run_shell_snd]
    refine reports_of_said hsaid fun message hmem => ?_
    have hgit : message.origin = "git" := (horigin message hmem).trans (Git.name_command _ dir)
    exact report?_of_origin (by simp [hgit]) (by simp [hgit])

theorem Rehearsal.journal_run (dir : Path) (args : List String) (world : World Rehearsal) :
    (Rehearsal.run dir args world).2.journal = world.journal := by
  unfold Rehearsal.run Rehearsal.call
  rw [Act.bind_apply, Act.modify_apply]
  simp only
  rw [Act.bind_apply, Act.get_apply]
  simp only
  cases (world.git.record (.run dir args)).failRun with
  | none => rfl
  | some start =>
    by_cases hfails : start.isPrefixOf args = true
    · simp only [if_pos hfails, Act.bind_apply, Act.throw_apply]
    · simp only [if_neg hfails, Act.modify_apply]

/-- A rehearsal says nothing at all. -/
instance : ReticentGit Rehearsal where
  reports_run dir args world :=
    congrArg (fun journal => journal.messages.filterMap Message.report?)
      (Rehearsal.journal_run dir args world)

/-! ## 3. What git does with steps -/

section
variable {G : Type} [Git G] {dir : Path} {world : World G} {steps done rest : List Step}
  {step : Step} {reason : Failure} {standing left : World G}

/-- The commands of steps succeed one after the other. Each finds the world that the one before it has
left, with the report on it. -/
inductive Succeeds (dir : Path) : World G → List Step → World G → Prop
  | nothing (world : World G) : Succeeds dir world [] world
  | andThen {world left : World G} {step : Step} {rest : List Step}
      (ran : ((Git.run dir step.args : Act G Unit) world).1 = .ok ())
      (more : Succeeds dir
        (((Git.run dir step.args : Act G Unit) world).2.say (.done step.text)) rest left) :
      Succeeds dir world (step :: rest) left

/-- The first command that fails is the one of a step in the list: those of the steps before it
succeed, and it leaves a world behind as well. -/
structure FailsFirst (dir : Path) (world : World G) (steps done : List Step) (step : Step)
    (reason : Failure) (left : World G) : Prop where
  listed : ∃ rest, steps = done ++ step :: rest
  fails : ∃ standing, Succeeds dir world done standing
    ∧ (Git.run dir step.args : Act G Unit) standing = (.error reason, left)

/-- The commands of steps all succeed, or there is a first one that fails. -/
theorem succeeds_or_failsFirst (dir : Path) (world : World G) (steps : List Step) :
    (∃ left, Succeeds dir world steps left)
      ∨ ∃ done step reason left, FailsFirst dir world steps done step reason left := by
  induction steps generalizing world with
  | nil => exact .inl ⟨world, .nothing world⟩
  | cons step rest ih =>
    rcases hrun : (Git.run dir step.args : Act G Unit) world with ⟨reason | _, ran⟩
    · exact .inr ⟨[], step, reason, ran, ⟨rest, rfl⟩, world, .nothing world, hrun⟩
    · have hok : ((Git.run dir step.args : Act G Unit) world).1 = .ok () := by rw [hrun]
      rcases ih (((Git.run dir step.args : Act G Unit) world).2.say (.done step.text)) with
        ⟨left, hall⟩ | ⟨done, later, reason, left, ⟨behind, hlisted⟩, standing, hdone, hfails⟩
      · exact .inl ⟨left, .andThen hok hall⟩
      · refine .inr ⟨step :: done, later, reason, left, ⟨behind, ?_⟩, standing, ?_, hfails⟩
        · rw [hlisted, List.cons_append]
        · exact .andThen hok hdone

/-! ## 4. What is reported on it -/

/-- Steps whose commands succeed are run and left behind. -/
theorem Succeeds.runSteps_append (h : Succeeds dir world done standing) :
    runSteps dir (done ++ rest) world = runSteps dir rest standing := by
  induction h with
  | nothing => rfl
  | @andThen world left step more ran _ ih =>
    rw [List.cons_append, runSteps, Act.bind_apply, runStep_eq]
    rcases hrun : (Git.run dir step.args : Act G Unit) world with ⟨_ | _, after⟩
    · rw [hrun] at ran
      cases ran
    · rw [hrun] at ih
      exact ih

theorem Succeeds.runSteps_eq (h : Succeeds dir world steps left) :
    runSteps dir steps world = (.ok (), left) := by
  have hwhole : runSteps dir (steps ++ []) world = runSteps dir [] left := h.runSteps_append
  rw [List.append_nil] at hwhole
  exact hwhole

theorem FailsFirst.runSteps_eq (h : FailsFirst dir world steps done step reason left) :
    runSteps dir steps world =
      (.error (.during (.publishing step) reason), left.say (.failed step.text)) := by
  obtain ⟨⟨rest, rfl⟩, standing, hdone, hfails⟩ := h
  rw [hdone.runSteps_append, runSteps, Act.bind_apply, runStep_eq, hfails]

/-- Steps whose commands succeed are reported as done, one by one. -/
theorem Succeeds.reports [ReticentGit G] (h : Succeeds dir world steps left) :
    left.reports = world.reports ++ steps.map fun step => (.done, step.text) := by
  induction h with
  | nothing => exact (List.append_nil _).symm
  | andThen _ _ ih =>
    rw [ih, reports_say (report?_done _), ReticentGit.reports_run, List.append_assoc]
    rfl

theorem FailsFirst.reports [ReticentGit G] (h : FailsFirst dir world steps done step reason left) :
    (left.say (.failed step.text)).reports = world.reports
      ++ (done.map fun step => (.done, step.text)) ++ [(.failed, step.text)] := by
  obtain ⟨-, standing, hdone, hfails⟩ := h
  have hleft : left.reports = standing.reports := by
    rw [← ReticentGit.reports_run dir step.args standing, hfails]
  rw [reports_say (report?_failed _), hleft, hdone.reports]

end

/-! ## 5. Names -/

/-- What is said of a failure in the middle of something is said of the activity. -/
theorem Failure.message_during (activity : Activity) (reason : Failure) :
    (Failure.during activity reason).message = activity.message := rfl

namespace Step

/-- The label of a step stands in a text, between backticks. -/
def IsNamedIn (step : Step) (text : String) : Prop :=
  ("`" ++ step.label ++ "`").toList <:+: text.toList

/-- All labels, in the order of a publication. -/
def labels : List String :=
  ["init", "user.name", "user.email", "add", "commit", "remote add", "push"]

theorem label_mem_labels (step : Step) : step.label ∈ labels := by
  cases step <;> simp [labels, label]

theorem quoted_infix_iff : ∀ one ∈ labels, ∀ two ∈ labels,
    (("`" ++ two ++ "`").toList <:+: ("publish step `" ++ one ++ "` failed").toList ↔ two = one) := by
  decide +kernel

/-- No label stands between backticks in what is said about a step, but its own. -/
theorem isNamedIn_publishing_iff (step other : Step) :
    other.IsNamedIn (Activity.publishing step).message ↔ other.label = step.label :=
  quoted_infix_iff step.label step.label_mem_labels other.label other.label_mem_labels

/-- The steps of a publication have different labels. -/
theorem nodup_label_publicationPlan (settings : Settings) (message : String) :
    ((publicationPlan settings message).map label).Nodup := by
  have hlabels : (publicationPlan settings message).map label = labels := rfl
  rw [hlabels]
  decide

end Step

/-! ## 6. The truth of the reports -/

section
variable {G : Type} [Git G] {dir : Path} {world : World G} {steps : List Step}

/-- What came of running steps is what git did with them, and the reports say so. -/
structure TrulyReported (dir : Path) (world : World G) (steps : List Step)
    (ended : Except Failure Unit × World G) : Prop where
  /-- Behind the first command that fails nothing is done but to report it. The steps before it have
  been reported as done, each with its own text, this one as failed, and that is all. -/
  failed {done : List Step} {step : Step} {reason : Failure} {left : World G} :
    FailsFirst dir world steps done step reason left →
      ended.2 = left.say (.failed step.text)
        ∧ ended.2.reports = world.reports
            ++ (done.map fun step => (.done, step.text)) ++ [(.failed, step.text)]
  /-- The failure names the step whose command failed and no other step. Its cause is the failure of
  the command, as it was. -/
  named {done : List Step} {step : Step} {reason : Failure} {left : World G} :
    FailsFirst dir world steps done step reason left →
      ∃ failure, ended.1 = .error failure
        ∧ failure = .during (.publishing step) reason
        ∧ (∀ other ∈ steps, other.IsNamedIn failure.message ↔ other = step)
        ∧ failure.causes = reason.message :: reason.causes
  /-- Where no command fails, all steps have been reported as done, and that is all. -/
  finished : (¬ ∃ done step reason left, FailsFirst dir world steps done step reason left) →
    ended.1 = .ok ()
      ∧ ended.2.reports = world.reports ++ steps.map fun step => (.done, step.text)

/-- Steps with different labels are truly reported. -/
theorem trulyReported_runSteps [ReticentGit G] (hlabels : (steps.map Step.label).Nodup) :
    TrulyReported dir world steps (runSteps dir steps world) where
  failed hfails := by
    rw [hfails.runSteps_eq]
    exact ⟨rfl, hfails.reports⟩
  named {done step reason left} hfails := by
    rw [hfails.runSteps_eq]
    refine ⟨_, rfl, rfl, fun other hother => ?_, rfl⟩
    obtain ⟨rest, hsteps⟩ := hfails.listed
    have hstep : step ∈ steps := by simp [hsteps]
    rw [Failure.message_during, Step.isNamedIn_publishing_iff]
    exact ⟨List.inj_on_of_nodup_map hlabels hother hstep, fun h => by rw [h]⟩
  finished hnone := by
    obtain ⟨left, hall⟩ := (succeeds_or_failsFirst dir world steps).resolve_right hnone
    rw [hall.runSteps_eq]
    exact ⟨rfl, hall.reports⟩

/-- Where there is a directory to publish, the steps of a publication are truly reported. -/
theorem pushOutput_trulyReported [ReticentGit G] (settings : Settings) (message : String)
    (hdir : world.files.isDir world.cwd settings.target.dir = true) :
    TrulyReported settings.target.dir world (publicationPlan settings message)
      (pushOutput settings message world) := by
  rw [pushOutput_apply, if_pos hdir]
  exact trulyReported_runSteps (Step.nodup_label_publicationPlan settings message)

end

/-- A verbose world in which a hook turns the commit down. The command before it prints what looks like
a report on the last step. -/
def hookWorld : World Shell where
  files := ⟨[(["demo"], .dir), (["demo", "dist"], .dir)]⟩
  verbose := true
  git :=
    { programs := ["git"]
      answers :=
        [{}, {}, {}, { output := { err := Bytes.ofString (Message.done "git push -f origin main").text } },
          { output := { err := Bytes.ofString "hint: see the hook" }, status := .exit 1 }] }

/-- Four steps are done and the fifth fails; what git prints is no report. -/
theorem pushOutput_trulyReported_hook :
    hookWorld.files.isDir hookWorld.cwd "demo/dist" = true
      ∧ ∃ reason left,
          FailsFirst "demo/dist" hookWorld (publicationPlan {} "Update to abc1234")
              [.init "main", .userName "rustmath-bot", .userEmail "", .stageAll]
              (.commit "Update to abc1234") reason left
            ∧ (∃ failure, (pushOutput {} "Update to abc1234" hookWorld).1 = .error failure
                ∧ failure.causes = reason.message :: reason.causes)
            ∧ (pushOutput {} "Update to abc1234" hookWorld).2.reports =
                [(.done, "git init -b main"), (.done, "git config user.name rustmath-bot"),
                  (.done, "git config user.email ''"), (.done, "git add -A"),
                  (.failed, "git commit -m 'Update to abc1234'")] := by
  have hdir : hookWorld.files.isDir hookWorld.cwd "demo/dist" = true := by decide +kernel
  obtain ⟨standing, hdone, hcommit⟩ : ∃ standing,
      Succeeds "demo/dist" hookWorld
          [.init "main", .userName "rustmath-bot", .userEmail "", .stageAll] standing
        ∧ ((Git.run "demo/dist" (Step.commit "Update to abc1234").args : Act Shell Unit)
            standing).1.isOk = false :=
    ⟨_, .andThen (eq_ok_of_toOption (by decide +kernel))
      (.andThen (eq_ok_of_toOption (by decide +kernel))
        (.andThen (eq_ok_of_toOption (by decide +kernel))
          (.andThen (eq_ok_of_toOption (by decide +kernel)) (.nothing _)))), by decide +kernel⟩
  rcases hrun : (Git.run "demo/dist" (Step.commit "Update to abc1234").args : Act Shell Unit)
    standing with ⟨reason | _, left⟩
  · have hfails : FailsFirst "demo/dist" hookWorld (publicationPlan {} "Update to abc1234")
        [.init "main", .userName "rustmath-bot", .userEmail "", .stageAll]
        (.commit "Update to abc1234") reason left := ⟨⟨_, rfl⟩, standing, hdone, hrun⟩
    have htrue : TrulyReported "demo/dist" hookWorld (publicationPlan {} "Update to abc1234")
        (pushOutput {} "Update to abc1234" hookWorld) := pushOutput_trulyReported {} _ hdir
    obtain ⟨failure, hfailure, -, -, hcauses⟩ := htrue.named hfails
    refine ⟨hdir, reason, left, hfails, ⟨failure, hfailure, hcauses⟩, ?_⟩
    rw [(htrue.failed hfails).2]
    decide +kernel
  · rw [hrun] at hcommit
    cases hcommit

end PublishOnce
