/-
PublishOnce.Proofs.Publication.Preview — what a status tells about a
publication.

A status and a publication are two routines that begin with the same
comparison. Nothing but the comparison decides whether they part: unless the
status says that a publication is pending, the two are one and the same run,
down to the journal. Where it is pending, the publication is what the steps make
of the world that the status leaves, and the only failures still to come are
those of the steps.

All this is so whatever git is and does (`status_previews`). For the git program
of a shell it becomes a statement about what has been asked
(`compare_attempts`, `pushOutput_attempts`): the two ask the same up to the
clone, and only a publication asks for more.
-/
import PublishOnce.Proofs.Publication.Course

namespace PublishOnce

open Program (Shell Command Tried)
open World (SameGround)

section
variable {G : Type} [Git G] {settings : Settings} {message : String} {dir : Path}
  {steps : List Step} {world : World G} {reason : Failure}

/-! ## 1. The failures of the steps -/

/-- What can go wrong behind a comparison. -/
inductive PushFailure (settings : Settings) (message : String) : Failure → Prop
  | missing : PushFailure settings message (.publishDirMissing settings.target.dir)
  | step {step : Step} (reason : Failure) (planned : step ∈ publicationPlan settings message) :
      PushFailure settings message (.during (.publishing step) reason)

theorem runStep_error {step : Step} (h : (runStep dir step world).1 = .error reason) :
    ∃ cause, reason = .during (.publishing step) cause := by
  rw [runStep_eq] at h
  rcases hrun : (Git.run dir step.args : Act G Unit) world with ⟨cause | _, world'⟩
  · simp only [hrun, Except.error.injEq] at h
    exact ⟨cause, h.symm⟩
  · simp only [hrun, reduceCtorEq] at h

/-- Steps fail with the failure of one of them. -/
theorem runSteps_error (h : (runSteps dir steps world).1 = .error reason) :
    ∃ step ∈ steps, ∃ cause, reason = .during (.publishing step) cause := by
  induction steps generalizing world with
  | nil => cases h
  | cons step rest ih =>
    unfold runSteps at h
    rw [Act.bind_apply] at h
    rcases hrun : runStep dir step world with ⟨failure | _, world'⟩
    · simp only [hrun, Except.error.injEq] at h
      exact ⟨step, List.mem_cons_self, runStep_error (by rw [hrun, h])⟩
    · simp only [hrun] at h
      obtain ⟨later, hlater, hcause⟩ := ih h
      exact ⟨later, List.mem_cons_of_mem _ hlater, hcause⟩

theorem pushOutput_error (h : (pushOutput settings message world).1 = .error reason) :
    PushFailure settings message reason := by
  rw [pushOutput_apply] at h
  split at h
  · obtain ⟨step, hplanned, cause, rfl⟩ := runSteps_error h
    exact .step cause hplanned
  · cases h
    exact .missing

/-! ## 2. Two routines, one comparison -/

/-- What is said about a remote repository that is behind and is left alone. -/
def pendingText (comparison : Comparison) : String :=
  match comparison.remote with
  | some subject => "Deploy needed for " ++ comparison.revision ++ ", remote is at `" ++ subject ++ "`"
  | none => "Deploy needed for " ++ comparison.revision ++ ", remote has no commits"

theorem status_apply (settings : Settings) (world : World G) :
    status settings world =
      match compare settings world with
      | (.error reason, world) => (.error reason, world)
      | (.ok comparison, world) =>
        if comparison.isCurrent then (.ok .upToDate, world.say ⟨"deploy", "Already up to date", false⟩)
        else (.ok .pending, world.say ⟨"deploy", pendingText comparison, false⟩) := by
  unfold status pendingText
  rw [Act.bind_apply]
  rcases compare settings world with ⟨_ | comparison, world⟩
  · rfl
  · simp only
    by_cases hcurrent : comparison.isCurrent = true
    · simp only [hcurrent, if_true, Act.bind_apply, Act.log_apply, Act.pure_apply]
    · simp only [hcurrent, Bool.false_eq_true, if_false]
      cases comparison.remote <;> rfl

/-- A status leaves what the comparison leaves, but for a message. -/
theorem status_ground (settings : Settings) (world : World G) :
    SameGround (status settings world).2 (compare settings world).2 := by
  rw [status_apply]
  rcases compare settings world with ⟨_ | comparison, looked⟩
  · exact .refl _
  · simp only
    split <;> exact World.sameGround_say ..

theorem status_error_iff :
    (status settings world).1 = .error reason ↔ (compare settings world).1 = .error reason := by
  rw [status_apply]
  rcases compare settings world with ⟨_ | comparison, looked⟩
  · simp
  · cases hcurrent : comparison.isCurrent <;> simp [hcurrent]

theorem status_pending_iff :
    (status settings world).1 = .ok .pending ↔
      ∃ comparison, (compare settings world).1 = .ok comparison ∧ comparison.isCurrent = false := by
  rw [status_apply]
  rcases compare settings world with ⟨_ | comparison, looked⟩
  · simp
  · cases hcurrent : comparison.isCurrent <;> simp [hcurrent]

/-- Where no publication is pending, a status and a publication are one run. -/
theorem publish_eq_status (h : (status settings world).1 ≠ .ok .pending) :
    publish settings world = status settings world := by
  rw [status_apply] at h ⊢
  rw [publish_apply]
  rcases hcompare : compare settings world with ⟨_ | comparison, looked⟩
  · rfl
  · cases hcurrent : comparison.isCurrent with
    | true => simp only [hcurrent, if_true]
    | false => simp [hcompare, hcurrent] at h

/-- A pending publication goes on where the status ends. -/
theorem publish_of_pending {comparison : Comparison}
    (compared : (compare settings world).1 = .ok comparison)
    (behind : comparison.isCurrent = false) :
    ∃ said, SameGround said (status settings world).2
      ∧ publish settings world =
          ((pushOutput settings comparison.expected said).1.map fun _ => .published,
            (pushOutput settings comparison.expected said).2) := by
  rw [publish_apply, status_apply]
  rcases hcompare : compare settings world with ⟨_ | found, looked⟩
  · rw [hcompare] at compared
    cases compared
  · obtain rfl : found = comparison := by
      rw [hcompare] at compared
      exact Except.ok.inj compared
    simp only [behind, Bool.false_eq_true, if_false]
    exact ⟨_, (World.sameGround_say ..).trans (World.sameGround_say ..).symm, rfl⟩

/-! ## 3. The preview -/

/-- A status as a preview of the publication that starts in the same world. -/
structure Previews (settings : Settings) (world : World G) : Prop where
  /-- A status does nothing behind the comparison. -/
  ground : SameGround (status settings world).2 (compare settings world).2
  /-- It fails with the comparison. -/
  fails (reason : Failure) :
    (status settings world).1 = .error reason ↔ (compare settings world).1 = .error reason
  /-- It says that a publication is pending where one gets past the comparison. -/
  pending : (status settings world).1 = .ok .pending ↔
    ∃ comparison, (compare settings world).1 = .ok comparison ∧ comparison.isCurrent = false
  /-- Otherwise a publication is the same run. -/
  settled : (status settings world).1 ≠ .ok .pending →
    publish settings world = status settings world
  upToDate : (status settings world).1 = .ok .upToDate ↔ (publish settings world).1 = .ok .upToDate
  /-- A pending publication goes on where the status ends, with the message that the comparison
  expected. It comes to a good end or fails behind the comparison. -/
  pushed (comparison : Comparison) :
    (compare settings world).1 = .ok comparison → comparison.isCurrent = false →
      (∃ said, SameGround said (status settings world).2
        ∧ publish settings world =
            ((pushOutput settings comparison.expected said).1.map fun _ => .published,
              (pushOutput settings comparison.expected said).2))
      ∧ ((publish settings world).1 = .ok .published
        ∨ ∃ reason, (publish settings world).1 = .error reason
            ∧ PushFailure settings comparison.expected reason)

/-- The end of a pending publication is the end of its steps. -/
theorem publish_outcome_of_pending {comparison : Comparison}
    (compared : (compare settings world).1 = .ok comparison)
    (behind : comparison.isCurrent = false) :
    (publish settings world).1 = .ok .published
      ∨ ∃ reason, (publish settings world).1 = .error reason
          ∧ PushFailure settings comparison.expected reason := by
  obtain ⟨said, -, hpublish⟩ := publish_of_pending compared behind
  rw [hpublish]
  cases hpush : (pushOutput settings comparison.expected said).1 with
  | ok _ => exact .inl rfl
  | error reason => exact .inr ⟨reason, rfl, pushOutput_error hpush⟩

theorem publish_upToDate_iff_status :
    (status settings world).1 = .ok .upToDate ↔ (publish settings world).1 = .ok .upToDate := by
  by_cases hpending : (status settings world).1 = .ok .pending
  · obtain ⟨comparison, compared, behind⟩ := status_pending_iff.mp hpending
    rcases publish_outcome_of_pending compared behind with hend | ⟨reason, hend, -⟩ <;>
      simp [hpending, hend]
  · rw [publish_eq_status hpending]

/-- Every status is a preview, whatever git does. -/
theorem status_previews (settings : Settings) (world : World G) : Previews settings world where
  ground := status_ground settings world
  fails _ := status_error_iff
  pending := status_pending_iff
  settled := publish_eq_status
  upToDate := publish_upToDate_iff_status
  pushed _ compared behind :=
    ⟨publish_of_pending compared behind, publish_outcome_of_pending compared behind⟩

end

/-! ## 4. What git is asked -/

variable {settings : Settings} {world : World Shell}

/-- A comparison tries a beginning of its two commands. -/
theorem compare_tried (settings : Settings) (world : World Shell) :
    ∃ commands success, Tried world commands success (compare settings world).2
      ∧ commands <+: [revisionCommand settings, cloneCommand settings] := by
  have hcompared := compare_compared settings world
  cases houtcome : (compare settings world).1 with
  | error reason => exact (houtcome ▸ hcompared).tried_of_error
  | ok comparison =>
    rw [houtcome] at hcompared
    cases hcompared with
    | compared seen ground => exact ⟨_, _, seen.tried.leave ground.git, List.prefix_rfl⟩

/-- The attempts of a comparison. -/
theorem compare_attempts (settings : Settings) (world : World Shell) :
    ∃ looked, (compare settings world).2.git.attempts = world.git.attempts ++ looked
      ∧ looked.map Program.Attempt.asked <+:
          [(revisionCommand settings).asked, (cloneCommand settings).asked] := by
  obtain ⟨commands, success, htried, hprefix⟩ := compare_tried settings world
  obtain ⟨looked, hlooked, -, hasked, -⟩ := htried.recorded
  exact ⟨looked, hlooked, hasked ▸ hprefix.map Command.asked⟩

/-- The attempts of the part behind the comparison. -/
theorem pushOutput_attempts (settings : Settings) (message : String) (world : World Shell) :
    ∃ pushed, (pushOutput settings message world).2.git.attempts = world.git.attempts ++ pushed
      ∧ pushed.map Program.Attempt.asked <+:
          (publicationPlan settings message).map fun step =>
            (stepCommand settings.target.dir step).asked := by
  rw [pushOutput_apply]
  split
  · obtain ⟨tried, hprefix, htried, -⟩ := tried_runSteps settings.target.dir
      (publicationPlan settings message) world
    obtain ⟨pushed, hpushed, -, hasked, -⟩ := htried.recorded
    refine ⟨pushed, hpushed, ?_⟩
    rw [hasked, List.map_map]
    exact hprefix.map _
  · exact ⟨[], by simp, List.nil_prefix⟩

/-- A status is a preview of the publication that starts in the same world, whatever git does. The
two ask the installed git for the same, up to the clone, and a publication asks for the steps as
well if it is pending. -/
theorem status_previews_publish (settings : Settings) :
    (∀ (G : Type) [Git G] (world : World G), Previews settings world)
      ∧ ∀ world : World Shell, ∃ looked pushed,
          (status settings world).2.git.attempts = world.git.attempts ++ looked
          ∧ looked.map Program.Attempt.asked <+:
              [(revisionCommand settings).asked, (cloneCommand settings).asked]
          ∧ (publish settings world).2.git.attempts = world.git.attempts ++ looked ++ pushed
          ∧ ((status settings world).1 ≠ .ok .pending → pushed = [])
          ∧ ∀ comparison, (compare settings world).1 = .ok comparison →
              comparison.isCurrent = false →
                pushed.map Program.Attempt.asked <+:
                  (publicationPlan settings comparison.expected).map fun step =>
                    (stepCommand settings.target.dir step).asked := by
  refine ⟨fun G _ world => status_previews settings world, fun world => ?_⟩
  obtain ⟨looked, hlooked, hasked⟩ := compare_attempts settings world
  have hstatus : (status settings world).2.git.attempts = world.git.attempts ++ looked := by
    rw [(status_ground settings world).git, hlooked]
  by_cases hpending : (status settings world).1 = .ok .pending
  · obtain ⟨comparison, compared, behind⟩ := status_pending_iff.mp hpending
    obtain ⟨said, hground, hpublish⟩ := publish_of_pending compared behind
    obtain ⟨pushed, hpushed, hsteps⟩ := pushOutput_attempts settings comparison.expected said
    refine ⟨looked, pushed, hstatus, hasked, ?_, fun h => absurd hpending h, ?_⟩
    · rw [hpublish, hpushed, hground.git, hstatus]
    · intro other compared' _
      rw [compared, Except.ok.injEq] at compared'
      exact compared' ▸ hsteps
  · refine ⟨looked, [], hstatus, hasked, ?_, fun _ => rfl, fun _ _ _ => List.nil_prefix⟩
    rw [publish_eq_status hpending, hstatus, List.append_nil]

end PublishOnce
