/-
PublishOnce.Proofs.Publication.Revisions — the message for one revision, seen
from another.

A remote repository that carries the message for an older revision must not
pass for up to date. The message is not compared as it was written: its title
has been cut out, trimmed and folded. So it is not enough that two messages with
one prefix differ behind it.

What settles it is that a subject is always tidy. If the prefix is not, neither
is the expected message, and no subject is equal to it, whatever has become of
the old message. If the prefix is tidy, nothing at all is lost of the old
message, and then it does differ behind the prefix.
-/
import PublishOnce.Proofs.Publication.UpToDate
import PublishOnce.Proofs.Repository.Subject

namespace PublishOnce

open Program (Shell)
open Repository (HeadCommit HeadHolds RefCommit Layout)
open Repository.Subject (IsTidy IsTail)

/-! ## 1. Messages -/

section
variable {messagePrefix revision other : String}

theorem isBlank_of_hasBlank (h : Text.hasBlank revision = false) :
    ∀ c ∈ revision.toList, Text.isBlank c = false := fun c hc => by
  simpa using List.any_eq_false.mp h c hc

/-- Behind a prefix, a revision has no influence on whether a message is tidy. -/
theorem isTidy_commitMessage_iff (hvisible : Text.hasBlank revision = false) :
    IsTidy (commitMessage messagePrefix revision).toList ↔ IsTidy messagePrefix.toList := by
  unfold commitMessage
  rw [String.toList_append]
  exact ⟨.of_append, fun h => h.append (isBlank_of_hasBlank hvisible)⟩

theorem isBlank_getLast_commitMessage (hne : revision ≠ "")
    (hvisible : Text.hasBlank revision = false) :
    ∀ c ∈ (commitMessage messagePrefix revision).toList.getLast?, Text.isBlank c = false := by
  intro c hc
  have hlist : revision.toList ≠ [] := by simpa using hne
  unfold commitMessage at hc
  rw [String.toList_append, List.getLast?_append_of_ne_nil _ hlist] at hc
  exact isBlank_of_hasBlank hvisible c (List.mem_of_mem_getLast? hc)

theorem commitMessage_ne_empty (hne : revision ≠ "") : commitMessage messagePrefix revision ≠ "" :=
  fun h => hne (String.append_eq_empty_iff.mp h).2

/-- The subject of a commit for one revision is not the message for another one. -/
theorem ofMessage_ne_commitMessage {tail : Bytes} (hne : other ≠ "")
    (hvisible : Text.hasBlank other = false) (htail : IsTail tail) (hother : other ≠ revision) :
    Repository.Subject.ofMessage (Bytes.ofString (commitMessage messagePrefix other) ++ tail)
      ≠ commitMessage messagePrefix revision := by
  intro hsame
  have htidy : IsTidy messagePrefix.toList := by
    have hsubject := Repository.Subject.isTidy_ofMessage
      (Bytes.ofString (commitMessage messagePrefix other) ++ tail)
    rw [hsame, commitMessage, String.toList_append] at hsubject
    exact hsubject.of_append
  rw [Repository.Subject.ofMessage_append_tail (commitMessage_ne_empty hne)
    ((isTidy_commitMessage_iff hvisible).mpr htidy) (isBlank_getLast_commitMessage hne hvisible)
    htail] at hsame
  exact hother (String.append_right_inj messagePrefix |>.mp hsame)

end

/-! ## 2. The comparison -/

/-- The commit that `HEAD` leads to carries the message for a revision, perhaps with a body. -/
def HeadMarked (settings : Settings) (repository : Repository) (revision : String) : Prop :=
  ∃ data tail, HeadCommit repository data ∧ IsTail tail
    ∧ Repository.Commit.message? data =
        some (Bytes.ofString (settings.commitMessage revision) ++ tail)

/-- A remote repository whose latest commit is for another revision is not up to date: the comparison
finds so, a status says that a publication is pending, and a publication goes ahead. -/
theorem compare_other_revision {settings : Settings} {world : World Shell}
    {revision other : String} {repository : Repository}
    (hfetched : Fetched settings world revision repository)
    (hmarked : HeadMarked settings repository other) (hne : other ≠ "")
    (hvisible : Text.hasBlank other = false) (hother : other ≠ revision) :
    ∃ comparison, (compare settings world).1 = .ok comparison
      ∧ comparison.revision = revision
      ∧ comparison.isCurrent = false
      ∧ (status settings world).1 = .ok .pending
      ∧ (publish settings world).1 ≠ .ok .upToDate := by
  obtain ⟨data, tail, hcommit, htail, hmessage⟩ := hmarked
  obtain ⟨content, hhead⟩ := Repository.head_of_open? hfetched.opened
  have hsubject := (Repository.lastSubject_eq_some_iff hhead).mpr ⟨data, hcommit, _, hmessage, rfl⟩
  have hcompare := compare_eq_ok_iff.mpr ⟨revision, _, hfetched.seen_iff.mpr hsubject, rfl⟩
  have hdiffer : Repository.Subject.ofMessage (Bytes.ofString (settings.commitMessage other) ++ tail)
      ≠ settings.commitMessage revision := ofMessage_ne_commitMessage hne hvisible htail hother
  have hbehind : Comparison.isCurrent ⟨revision, settings.commitMessage revision,
      some (Repository.Subject.ofMessage
        (Bytes.ofString (settings.commitMessage other) ++ tail))⟩ = false := by
    simpa [Comparison.isCurrent] using hdiffer
  have hpending := status_pending_iff.mpr ⟨_, hcompare, hbehind⟩
  refine ⟨_, hcompare, rfl, hbehind, hpending, fun hcurrent => ?_⟩
  rw [← publish_upToDate_iff_status, hpending] at hcurrent
  cases hcurrent

/-- A clone whose latest commit is for the revision `abc123`, with a body. -/
def olderClone : Layout :=
  .single "main" (Bytes.ofString "Update to abc123\n\nUpdate to abc1234\n")

/-- The general statement where one revision is the beginning of the other, which is named in the body
of the commit. -/
theorem compare_other_revision_longer :
    Fetched {} (cloningWorld "abc1234\n" olderClone) "abc1234" ⟨olderClone.tree⟩
      ∧ HeadMarked {} ⟨olderClone.tree⟩ "abc123"
      ∧ (status {} (cloningWorld "abc1234\n" olderClone)).1 = .ok .pending := by
  have hfetched : Fetched {} (cloningWorld "abc1234\n" olderClone) "abc1234"
      ⟨olderClone.tree⟩ := .of_fetch? (by decide +kernel)
  have hmarked : HeadMarked {} ⟨olderClone.tree⟩ "abc123" := by
    have hholds : HeadHolds ⟨olderClone.tree⟩ (.symbolic (Layout.branchRef "main")) :=
      ⟨_, rfl, by decide +kernel⟩
    have hfind : Repository.find ⟨olderClone.tree⟩ (Layout.branchRef "main") =
        .ok (some ⟨Layout.branchRef "main", .direct Layout.commitId, none⟩) := by decide +kernel
    exact ⟨(Layout.commitOf (Bytes.ofString "Update to abc123\n\nUpdate to abc1234\n")).data, _,
      .branch hholds hfind (.followed rfl (Nat.zero_le _) (.here _) (.commit (by decide +kernel))),
      .body (Bytes.ofString "Update to abc1234\n"), by decide +kernel⟩
  obtain ⟨comparison, -, -, -, hpending, -⟩ := compare_other_revision hfetched hmarked (by decide)
    (by decide +kernel) (by decide)
  exact ⟨hfetched, hmarked, hpending⟩

end PublishOnce
