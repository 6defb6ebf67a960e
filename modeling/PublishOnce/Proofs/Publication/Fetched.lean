/-
PublishOnce.Proofs.Publication.Fetched — a clone that is a repository.

The four gates of a comparison are about what git does. `Fetched` adds that the
clone can be opened, and then what is seen of the remote repository is what its
files yield. For a concrete world all of it can be computed (`fetch?`).
-/
import PublishOnce.Proofs.Publication.Comparison
import PublishOnce.Proofs.Repository.Head
import PublishOnce.Repository.Layout

namespace PublishOnce

open Program (Shell)
open Repository (HeadHolds RefCommit Layout)

/-! ## 1. A clone that can be opened -/

/-- Git printed a revision and made a clone, and the clone can be opened. -/
structure Fetched (settings : Settings) (world : World Shell) (revision : String)
    (repository : Repository) : Prop where
  printed : Printed settings world revision
  free : PlaceFree settings world
  cloned : Cloned settings world
  opened : Repository.open? (afterClone settings world).files world.cwd settings.clonePath
    = some repository

instance (settings : Settings) (world : World Shell) : Decidable (PlaceFree settings world) :=
  inferInstanceAs (Decidable (_ = _))

instance (settings : Settings) (world : World Shell) : Decidable (Cloned settings world) :=
  inferInstanceAs (Decidable (_ = _))

/-- The revision and the repository that are fetched, computed. -/
def fetch? (settings : Settings) (world : World Shell) : Option (String × Repository) := do
  let output ← ((revisionCommand settings).run world).1.toOption
  if Git.revisionIn output ≠ "" ∧ PlaceFree settings world ∧ Cloned settings world then
    (Repository.open? (afterClone settings world).files world.cwd settings.clonePath).map
      (Git.revisionIn output, ·)
  else none

theorem Fetched.of_fetch? {settings : Settings} {world : World Shell} {revision : String}
    {repository : Repository} (h : fetch? settings world = some (revision, repository)) :
    Fetched settings world revision repository := by
  unfold fetch? at h
  obtain ⟨output, hrun, h⟩ := Option.bind_eq_some_iff.mp h
  obtain ⟨⟨hrevision, hfree, hcloned⟩, h⟩ := Option.ite_none_right_eq_some.mp h
  obtain ⟨found, hopened, h⟩ := Option.map_eq_some_iff.mp h
  obtain ⟨rfl, rfl⟩ := Prod.mk.inj h
  exact ⟨⟨output, eq_ok_of_toOption hrun, rfl, hrevision⟩, hfree, hcloned, hopened⟩

namespace Fetched

variable {settings : Settings} {world : World Shell} {revision : String} {repository : Repository}

/-- What is seen of a clone is the subject that its files yield. -/
theorem seen_iff (h : Fetched settings world revision repository) {subject : Option String} :
    Seen settings world revision subject ↔ repository.lastSubject = .ok subject := by
  have hread : subjectRead settings world = repository.lastSubject.mapError .repository := by
    unfold subjectRead Git.subjectAt
    rw [h.opened]
  constructor
  · intro seen
    have hok := seen.read
    rw [hread] at hok
    cases hsubject : repository.lastSubject with
    | error reason => simp [hsubject, Except.mapError] at hok
    | ok found => simpa [hsubject, Except.mapError] using hok
  · intro hsubject
    refine ⟨h.printed, h.free, h.cloned, ?_⟩
    rw [hread, hsubject]
    rfl

/-- The only message that can be seen is the one for the revision that git printed. -/
theorem exists_seen_iff (h : Fetched settings world revision repository) :
    (∃ other, Seen settings world other (some (settings.commitMessage other))) ↔
      Seen settings world revision (some (settings.commitMessage revision)) := by
  constructor
  · rintro ⟨other, seen⟩
    exact (seen.printed.unique h.printed) ▸ seen
  · exact fun seen => ⟨revision, seen⟩

/-- Up to date means that `HEAD` leads to the message. -/
theorem seen_message_iff (h : Fetched settings world revision repository) :
    (∃ other, Seen settings world other (some (settings.commitMessage other))) ↔
      repository.HeadCarries (settings.commitMessage revision) := by
  obtain ⟨content, hhead⟩ := Repository.head_of_open? h.opened
  rw [h.exists_seen_iff, h.seen_iff]
  exact Repository.lastSubject_eq_some_iff hhead

end Fetched

/-! ## 2. A world to fetch in -/

/-- A world in which git prints a text and then clones a repository. -/
def cloningWorld (printed : String) (clone : Layout) : World Shell where
  git :=
    { programs := ["git"]
      answers := [{ output := { out := Bytes.ofString printed } }, { leaves := some clone.tree }] }

/-- A clone whose only branch is `main`, with one commit for the revision `abc1234`. -/
def mainClone : Layout := .single "main" (Bytes.ofString "Update to abc1234\n")

theorem mainClone_holds :
    HeadHolds ⟨mainClone.tree⟩ (.symbolic (Layout.branchRef "main")) :=
  ⟨_, rfl, by decide +kernel⟩

theorem mainClone_commit :
    ∃ ref data, Repository.find ⟨mainClone.tree⟩ (Layout.branchRef "main") = .ok (some ref)
      ∧ RefCommit ⟨mainClone.tree⟩ ref data
      ∧ Repository.Commit.message? data = some (Bytes.ofString "Update to abc1234\n") := by
  refine ⟨⟨Layout.branchRef "main", .direct Layout.commitId, none⟩,
    (Layout.commitOf (Bytes.ofString "Update to abc1234\n")).data, by decide +kernel, ?_,
    by decide +kernel⟩
  exact .followed rfl (Nat.zero_le _) (.here _) (.commit (by decide +kernel))

theorem mainClone_carries :
    Repository.RefCarries ⟨mainClone.tree⟩ (Layout.branchRef "main") "Update to abc1234" := by
  obtain ⟨ref, data, hfind, hcommit, hmessage⟩ := mainClone_commit
  exact ⟨ref, data, hfind, hcommit, _, hmessage, by decide +kernel⟩

theorem fetched_mainClone :
    Fetched {} (cloningWorld "abc1234\n" mainClone) "abc1234" ⟨mainClone.tree⟩ :=
  .of_fetch? (by decide +kernel)

end PublishOnce
