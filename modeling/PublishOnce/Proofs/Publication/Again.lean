/-
PublishOnce.Proofs.Publication.Again — a second run at the same revision.

A publication commits with a message, and the next run looks for this message
as the subject of the latest commit. The two are the same text only if the
prefix is tidy: no line feed in it and no white space at its front. The
settings are not checked for that. Under any other prefix every run at the same
revision finds another subject and publishes once more
(`publish_again_folded`).
-/
import PublishOnce.Proofs.Publication.Revisions

namespace PublishOnce

open Program (Shell)
open Repository (HeadHolds RefCommit Layout Subject.IsTidy Subject.ofMessage)

/-! ## 1. Digits -/

/-- A hexadecimal digit. -/
def isHexDigit (c : Char) : Bool := "0123456789abcdefABCDEF".toList.contains c

theorem isBlank_of_isHexDigit {c : Char} (h : isHexDigit c = true) : Text.isBlank c = false := by
  have hall : "0123456789abcdefABCDEF".toList.all (fun c => !Text.isBlank c) = true := by
    decide +kernel
  simpa using List.all_eq_true.mp hall c (List.contains_iff_mem.mp h)

theorem hasBlank_of_isHexDigit {revision : String} (hdigits : revision.toList.all isHexDigit = true) :
    Text.hasBlank revision = false :=
  List.any_eq_false.mpr fun c hc => by
    simp [isBlank_of_isHexDigit (List.all_eq_true.mp hdigits c hc)]

/-! ## 2. The second run -/

/-- `HEAD` names the branch that is overwritten, and the commit there carries the message for a
revision, with a line feed behind it. -/
structure Marked (settings : Settings) (repository : Repository) (revision : String) : Prop where
  head : HeadHolds repository (.symbolic (Layout.branchRef settings.target.branch))
  commit : ∃ ref data, repository.find (Layout.branchRef settings.target.branch) = .ok (some ref)
    ∧ RefCommit repository ref data
    ∧ Repository.Commit.message? data =
        some (Bytes.ofString (settings.commitMessage revision) ++ [Bytes.lineFeed])

theorem Marked.lastSubject {settings : Settings} {repository : Repository} {revision : String}
    (h : Marked settings repository revision) :
    repository.lastSubject =
      .ok (some (Subject.ofMessage
        (Bytes.ofString (settings.commitMessage revision) ++ [Bytes.lineFeed]))) := by
  obtain ⟨content, hfile, -⟩ := h.head
  obtain ⟨ref, data, hfind, hcommit, hmessage⟩ := h.commit
  rw [Repository.lastSubject_eq_some_iff hfile]
  exact ⟨data, .branch h.head hfind hcommit, _, hmessage, rfl⟩

section
variable {settings : Settings} {world : World Shell} {revision : String} {repository : Repository}

/-- The second run sees the message exactly if the prefix is tidy. -/
theorem Marked.seen_message_iff (hmarked : Marked settings repository revision)
    (hfetched : Fetched settings world revision repository)
    (hdigits : revision.toList.all isHexDigit = true) :
    Seen settings world revision (some (settings.commitMessage revision)) ↔
      Subject.IsTidy settings.commit.messagePrefix.toList := by
  obtain ⟨_, _, _, hne⟩ := hfetched.printed
  have hvisible := hasBlank_of_isHexDigit hdigits
  rw [hfetched.seen_iff, hmarked.lastSubject, Except.ok.injEq, Option.some.injEq]
  exact (Repository.Subject.ofMessage_verbatim_iff
    (isBlank_getLast_commitMessage hne hvisible)).trans (isTidy_commitMessage_iff hvisible)

/-- Publishing is due once more exactly if the prefix is not tidy and there is a directory to
publish. -/
theorem Marked.due_iff (hmarked : Marked settings repository revision)
    (hfetched : Fetched settings world revision repository)
    (hdigits : revision.toList.all isHexDigit = true) :
    Due settings world revision ↔
      ¬ Subject.IsTidy settings.commit.messagePrefix.toList
        ∧ (afterRemoval settings world).files.isDir world.cwd settings.target.dir = true := by
  have hseen := hfetched.seen_iff.mpr hmarked.lastSubject
  rw [← hmarked.seen_message_iff hfetched hdigits]
  unfold Due
  refine and_congr_left fun _ => ⟨?_, ?_⟩
  · rintro ⟨subject, hsubject, hstale⟩ hcurrent
    exact hstale (hsubject.unique hcurrent).2
  · intro hnot
    exact ⟨_, hseen, fun hsame => hnot (hsame ▸ hseen)⟩

/-- Where the commit for a revision is the latest one, a run at this revision finds nothing to do
exactly if the prefix is tidy. Otherwise it comes to the steps once more, if there is a directory to
publish. -/
theorem publish_again_iff (hfetched : Fetched settings world revision repository)
    (hmarked : Marked settings repository revision)
    (hdigits : revision.toList.all isHexDigit = true) :
    ((status settings world).1 = .ok .upToDate ↔
        Subject.IsTidy settings.commit.messagePrefix.toList)
      ∧ ((publish settings world).1 = .ok .upToDate ↔
          Subject.IsTidy settings.commit.messagePrefix.toList)
      ∧ ∃ attempts, (publish settings world).2.git.attempts = world.git.attempts ++ attempts
          ∧ (2 < attempts.length ↔ ¬ Subject.IsTidy settings.commit.messagePrefix.toList
              ∧ (afterRemoval settings world).files.isDir world.cwd settings.target.dir = true) := by
  have hcurrent : (∃ other, Seen settings world other (some (settings.commitMessage other))) ↔
      Subject.IsTidy settings.commit.messagePrefix.toList := by
    rw [hfetched.exists_seen_iff, hmarked.seen_message_iff hfetched hdigits]
  refine ⟨status_upToDate_iff.trans hcurrent, publish_upToDate_iff.trans hcurrent, ?_⟩
  obtain ⟨revision', commands, success, htried, -, hrevision, hdue, -⟩ :=
    (publish_ended settings world).tried
  obtain rfl := hrevision _ _ (hfetched.seen_iff.mpr hmarked.lastSubject)
  obtain ⟨attempts, hattempts, -, hasked, -⟩ := htried.recorded
  have hlength : attempts.length = commands.length := by
    simpa using congrArg List.length hasked
  refine ⟨attempts, hattempts, ?_⟩
  rw [hlength, hdue]
  exact hmarked.due_iff hfetched hdigits

end

/-- The prefix that nobody has changed is tidy. -/
theorem publish_again_iff_default :
    Fetched {} (cloningWorld "abc1234\n" mainClone) "abc1234" ⟨mainClone.tree⟩
      ∧ Marked {} ⟨mainClone.tree⟩ "abc1234"
      ∧ "abc1234".toList.all isHexDigit = true
      ∧ (publish {} (cloningWorld "abc1234\n" mainClone)).1 = .ok .upToDate := by
  have hmarked : Marked {} ⟨mainClone.tree⟩ "abc1234" := by
    have hmessage : Bytes.ofString (Settings.commitMessage {} "abc1234") ++ [Bytes.lineFeed]
        = Bytes.ofString "Update to abc1234\n" := by decide +kernel
    exact ⟨mainClone_holds, hmessage ▸ mainClone_commit⟩
  have hdigits : "abc1234".toList.all isHexDigit = true := by decide +kernel
  have htidy : Subject.IsTidy (Settings.Commit.messagePrefix {}).toList := by
    have hfront : (Settings.Commit.messagePrefix {}).toList.head? = some 'U' := by decide +kernel
    refine ⟨by decide +kernel, fun c hc => ?_⟩
    rw [hfront] at hc
    cases hc
    decide
  obtain ⟨-, hpublish, -⟩ := publish_again_iff fetched_mainClone hmarked hdigits
  exact ⟨fetched_mainClone, hmarked, hdigits, hpublish.mpr htidy⟩

/-- Settings with a prefix of two lines, which break no rule. -/
def foldedSettings : Settings := { commit := { messagePrefix := "Site update\nUpdate to " } }

/-- A clone whose latest commit carries the message of `foldedSettings` for the revision `abc1234`. -/
def foldedClone : Layout := .single "main" (Bytes.ofString "Site update\nUpdate to abc1234\n")

/-- A world in which this clone is fetched, and in which there is something to publish. -/
def foldedWorld : World Shell :=
  { cloningWorld "abc1234\n" foldedClone with
    files := ⟨[(["demo"], .dir), (["demo", "dist"], .dir)]⟩ }

/-- With a prefix of two lines, the revision that has been published is published again. -/
theorem publish_again_folded :
    foldedSettings.diagnostics = []
      ∧ Fetched foldedSettings foldedWorld "abc1234" ⟨foldedClone.tree⟩
      ∧ Marked foldedSettings ⟨foldedClone.tree⟩ "abc1234"
      ∧ "abc1234".toList.all isHexDigit = true
      ∧ (publish foldedSettings foldedWorld).1 = .ok .published
      ∧ (publish foldedSettings foldedWorld).2.git.attempts.length = 9 := by
  have hrun : (publish foldedSettings foldedWorld).1.toOption = some .published
      ∧ (publish foldedSettings foldedWorld).2.git.attempts.length = 9 := by decide +kernel
  refine ⟨by decide +kernel, .of_fetch? (by decide +kernel), ⟨⟨_, rfl, by decide +kernel⟩, ?_⟩,
    by decide +kernel, eq_ok_of_toOption hrun.1, hrun.2⟩
  refine ⟨⟨Layout.branchRef "main", .direct Layout.commitId, none⟩,
    (Layout.commitOf (Bytes.ofString "Site update\nUpdate to abc1234\n")).data,
    by decide +kernel, ?_, by decide +kernel⟩
  exact .followed rfl (Nat.zero_le _) (.here _) (.commit (by decide +kernel))

end PublishOnce
