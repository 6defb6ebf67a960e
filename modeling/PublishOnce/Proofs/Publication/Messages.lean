/-
PublishOnce.Proofs.Publication.Messages — which messages can be found at all.

A message marks a revision as published only if it is found again as the subject
of a commit. Some messages never are, whatever stands in the clone: a subject
has no line feed in it, and it starts and ends with something to see. These are
all of them. A message like that is found in the very commit that was made with
it, and for this nothing depends on the headers of the commit, or on a body
behind an empty line (`counts_iff_isTrim`).

The empty message is the exception to the second half. It is found in a commit
that has no title at all, but a body behind it would be taken for the title.
-/
import PublishOnce.Proofs.Publication.Damage
import PublishOnce.Proofs.Publication.UpToDate
import PublishOnce.Proofs.Repository.Layout
import PublishOnce.Proofs.Repository.Subject

namespace PublishOnce

open Program (Shell)
open Repository (HeadCommit Layout)
open Repository.Commit (Headers)
open Repository.Subject (IsTrim IsTail)

/-! ## 1. Finding a message in a clone -/

/-- The clone at a path can be opened, and `HEAD` leads to a commit there. -/
def CloneHolds (files : FileTree) (cwd : Location) (bare : Path) (data : Bytes) : Prop :=
  ∃ repository, Repository.open? files cwd bare = some repository ∧ HeadCommit repository data

/-- A comparison that expects the message is satisfied with the clone at a path. -/
def Counts (files : FileTree) (cwd : Location) (bare : Path) (message : String) : Prop :=
  ∃ subject, Git.subjectAt files cwd bare = .ok subject
    ∧ ∀ revision, Comparison.isCurrent ⟨revision, message, subject⟩ = true

section
variable {files : FileTree} {cwd : Location} {bare : Path} {message : String}

theorem counts_iff : Counts files cwd bare message ↔
    Git.subjectAt files cwd bare = .ok (some message) := by
  simp only [Counts, Comparison.isCurrent, decide_eq_true_eq, forall_const]
  constructor
  · rintro ⟨subject, hread, rfl⟩
    exact hread
  · exact fun hread => ⟨_, hread, rfl⟩

/-- What is found starts and ends with something to see, whatever the clone holds. -/
theorem isTrim_of_counts (h : Counts files cwd bare message) : IsTrim message.toList := by
  obtain ⟨_, -, _, -, _, -, rfl⟩ := subjectAt_eq_some_iff.mp (counts_iff.mp h)
  exact Repository.Subject.isTrim_ofMessage _

/-- For every commit there is a clone. -/
theorem exists_cloneHolds (data : Bytes) : ∃ files cwd bare, CloneHolds files cwd bare data := by
  obtain ⟨files, cwd, bare, repository, hopen, hcommit⟩ := Repository.exists_open?_headCommit data
  exact ⟨files, cwd, bare, repository, hopen, hcommit⟩

theorem counts_of_cloneHolds {data : Bytes} (hclone : CloneHolds files cwd bare data)
    (hsubject : Repository.HasSubject data message) : Counts files cwd bare message := by
  obtain ⟨repository, hopen, hcommit⟩ := hclone
  exact counts_iff.mpr (subjectAt_eq_some_iff.mpr ⟨repository, hopen, data, hcommit, hsubject⟩)

end

/-! ## 2. The commits in which a message is found -/

section
variable {message : String} (headers : Headers)

/-- A message is the subject of the commit that was made with it, line feed and all. -/
theorem hasSubject_commit (htrim : IsTrim message.toList) :
    Repository.HasSubject (headers.commit (Bytes.ofString message ++ [Bytes.lineFeed])) message :=
  ⟨_, headers.message?_commit _,
    Repository.Subject.ofMessage_verbatim htrim.toIsTidy htrim.back⟩

theorem hasSubject_commit_append {tail : Bytes} (hne : message ≠ "")
    (htrim : IsTrim message.toList) (htail : IsTail tail) :
    Repository.HasSubject (headers.commit (Bytes.ofString message ++ tail)) message :=
  ⟨_, headers.message?_commit _,
    Repository.Subject.ofMessage_append_tail hne htrim.toIsTidy htrim.back htail⟩

end

/-! ## 3. The messages that are found -/

/-- Headers with everything that headers can have: a merge of two, with an encoding and a header that
goes on for several lines. -/
def mergeHeaders : Headers where
  tree := ⟨Bytes.ofString "1111111111111111111111111111111111111111", by decide +kernel,
    by decide +kernel⟩
  parents := [⟨Bytes.ofString "2222222222222222222222222222222222222222", by decide +kernel,
      by decide +kernel⟩,
    ⟨Bytes.ofString "abcdefabcdefabcdefabcdefabcdefabcdefabcd", by decide +kernel,
      by decide +kernel⟩]
  author := ⟨Bytes.ofString "A ", Bytes.ofString "a@site", Bytes.ofString " 1 +0000",
    by decide +kernel, by decide +kernel, List.all_eq_true.mp (by decide +kernel),
    by decide +kernel, by decide +kernel⟩
  committer := ⟨[], [], [], by decide, by decide, List.forall_mem_nil _, by decide, by decide⟩
  encoding := some (Bytes.ofString "ISO-8859-1")
  others := [{ name := Bytes.ofString "gpgsig", value := Bytes.ofString "-----BEGIN"
               more := [[], Bytes.ofString "-----END"]
               name_ne_nil := by decide +kernel
               name_word := by decide +kernel
               name_line := by decide +kernel
               value_ne_nil := by decide +kernel
               value_line := by decide +kernel
               more_line := by decide +kernel }]
  encoding_ne_nil := by decide +kernel
  encoding_line := by decide +kernel
  others_head := by decide +kernel

/-- What a comparison says is what it has found in its clone. -/
theorem isCurrent_iff_counts {settings : Settings} {world : World Shell} {comparison : Comparison}
    (h : (compare settings world).1 = .ok comparison) :
    comparison.isCurrent = true ↔
      Counts (afterClone settings world).files world.cwd settings.clonePath comparison.expected := by
  obtain ⟨revision, subject, seen, rfl⟩ := compare_eq_ok_iff.mp h
  have hread : Git.subjectAt (afterClone settings world).files world.cwd settings.clonePath =
      .ok subject := seen.read
  rw [counts_iff, hread, Except.ok.injEq]
  exact decide_eq_true_iff

/-- A message can be found in a clone exactly if it has no line feed in it and starts and ends with
something to see; it makes no difference whether commits are well formed. Unless it is empty, such a
message is found in every commit in which it stands in front of a tail, whatever the headers are. -/
theorem counts_iff_isTrim (message : String) :
    ((∃ files cwd bare headers body, CloneHolds files cwd bare (Headers.commit headers body)
        ∧ Counts files cwd bare message) ↔ IsTrim message.toList)
      ∧ (∀ files cwd bare, Counts files cwd bare message → IsTrim message.toList)
      ∧ (message ≠ "" → IsTrim message.toList → ∀ (headers : Headers) (tail : Bytes), IsTail tail →
          (∃ files cwd bare, CloneHolds files cwd bare (headers.commit (Bytes.ofString message ++ tail)))
            ∧ ∀ files cwd bare,
                CloneHolds files cwd bare (headers.commit (Bytes.ofString message ++ tail)) →
                  Counts files cwd bare message)
      ∧ ∀ settings (world : World Shell) comparison, (compare settings world).1 = .ok comparison →
          (comparison.isCurrent = true ↔
            Counts (afterClone settings world).files world.cwd settings.clonePath
              comparison.expected) := by
  refine ⟨⟨?_, ?_⟩, fun _ _ _ => isTrim_of_counts, ?_, fun _ _ _ => isCurrent_iff_counts⟩
  · rintro ⟨files, cwd, bare, headers, body, -, hcounts⟩
    exact isTrim_of_counts hcounts
  · intro htrim
    obtain ⟨files, cwd, bare, hclone⟩ := exists_cloneHolds
      (mergeHeaders.commit (Bytes.ofString message ++ [Bytes.lineFeed]))
    exact ⟨files, cwd, bare, mergeHeaders, _, hclone,
      counts_of_cloneHolds hclone (hasSubject_commit mergeHeaders htrim)⟩
  · intro hne htrim headers tail htail
    exact ⟨exists_cloneHolds _, fun files cwd bare hclone =>
      counts_of_cloneHolds hclone (hasSubject_commit_append headers hne htrim htail)⟩

/-- A body that is no text. -/
def binaryBody : Bytes := [0xFF, 0x0A, 0x00]

/-- A clone whose latest commit is a merge, with a body that is no text. -/
def mergeClone : Layout :=
  .ofCommit (mergeHeaders.commit (Bytes.ofString "Update to abc1234"
    ++ Bytes.lineFeed :: Bytes.lineFeed :: binaryBody))

theorem fetched_mergeClone :
    Fetched {} (cloningWorld "abc1234\n" mergeClone) "abc1234" ⟨mergeClone.tree⟩ :=
  .of_fetch? (by decide +kernel)

/-- The message for a revision is found in a merge with a body that is no text. -/
theorem counts_iff_isTrim_merge :
    IsTrim "Update to abc1234".toList
      ∧ ∃ comparison, (compare {} (cloningWorld "abc1234\n" mergeClone)).1 = .ok comparison
        ∧ comparison.expected = "Update to abc1234"
        ∧ comparison.isCurrent = true := by
  have hfront : "Update to abc1234".toList.head? = some 'U' := by decide +kernel
  have hback : "Update to abc1234".toList.getLast? = some '4' := by decide +kernel
  have htrim : IsTrim "Update to abc1234".toList :=
    ⟨⟨by decide +kernel, fun c hc => Option.some.inj (hfront.symm.trans hc) ▸ by decide⟩,
      fun c hc => Option.some.inj (hback.symm.trans hc) ▸ by decide⟩
  have hexpected : Settings.commitMessage {} "abc1234" = "Update to abc1234" := by decide +kernel
  obtain ⟨-, -, hfound, hcurrent⟩ := counts_iff_isTrim "Update to abc1234"
  have hcounts := (hfound (by decide) htrim mergeHeaders _ (.body binaryBody)).2 _ _ _
    ⟨_, fetched_mergeClone.opened, Layout.headCommit_ofCommit _⟩
  obtain ⟨printed, free, cloned, -⟩ := fetched_mergeClone
  have hcompare := compare_eq_ok_iff.mpr ⟨_, _, ⟨printed, free, cloned, counts_iff.mp hcounts⟩, rfl⟩
  exact ⟨htrim, _, hcompare, hexpected, (hcurrent _ _ _ hcompare).mpr (hexpected ▸ hcounts)⟩

end PublishOnce
