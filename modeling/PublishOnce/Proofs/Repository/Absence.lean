/-
PublishOnce.Proofs.Repository.Absence — when a reference counts as absent.

Only an absent branch may be taken for an empty repository, so everything
depends on what "absent" means. For each full name that a name may stand for,
there must be no loose file and nothing in the way of one, and the packed
references must be readable and not have it.

For packed references that keep what their header promises (`WellPacked`), not
having a name is what one expects: there is no entry of the name, apart from
names that are never packed. The promise is not checked. Where it is broken, an
entry can be there and be missed.
-/
import PublishOnce.Proofs.Repository.PackedSearch
import PublishOnce.Proofs.Repository.Head

namespace PublishOnce.Repository

variable {repository : Repository} {file : PackedFile} {name : String}

/-! ## 1. Full names -/

/-- A reference of a full name is loose, or packed and direct. -/
theorem findFull_cases {found : Option Ref} (h : repository.findFull file name = .ok found) :
    (∃ content target, repository.loose name = .ok (some content)
        ∧ Target.ofLoose? content = some target ∧ found = some ⟨name, target, none⟩)
      ∨ repository.loose name = .ok none
        ∧ ∃ entry, file.find name = .ok entry ∧ found = entry.map Ref.ofPacked := by
  unfold findFull at h
  cases hloose : repository.loose name with
  | error reason =>
    rw [hloose] at h
    cases h
  | ok content =>
    rw [hloose] at h
    cases content with
    | some content =>
      simp only [bind, Except.bind] at h
      split at h
      · next target htarget =>
        cases h
        exact .inl ⟨content, target, rfl, htarget, rfl⟩
      · cases h
    | none =>
      simp only [bind, Except.bind, pure, Except.pure] at h
      split at h
      · cases h
      · next entry hentry =>
        cases h
        exact .inr ⟨rfl, entry, hentry, rfl⟩

theorem findFull_eq_none_iff :
    repository.findFull file name = .ok none ↔
      repository.loose name = .ok none ∧ file.find name = .ok none := by
  constructor
  · intro h
    rcases findFull_cases h with ⟨_, _, _, _, hfound⟩ | ⟨hloose, entry, hentry, hfound⟩
    · cases hfound
    · cases entry with
      | none => exact ⟨hloose, hentry⟩
      | some entry => cases hfound
  · rintro ⟨hloose, hpacked⟩
    unfold findFull
    rw [hloose, hpacked]
    rfl

theorem findFirst_cons (full : String) (names : List String) :
    repository.findFirst file (full :: names) =
      match repository.findFull file full with
      | .error reason => .error reason
      | .ok (some ref) => .ok (some ref)
      | .ok none => repository.findFirst file names := by
  rw [findFirst]
  cases repository.findFull file full with
  | error reason => rfl
  | ok found => cases found <;> rfl

theorem findFirst_eq_none_iff {names : List String} :
    repository.findFirst file names = .ok none ↔
      ∀ full ∈ names, repository.findFull file full = .ok none := by
  induction names with
  | nil => simp [findFirst]
  | cons full names ih =>
    rw [List.forall_mem_cons, ← ih, findFirst_cons]
    cases repository.findFull file full with
    | error reason => simp
    | ok found => cases found <;> simp

/-- A name stands for no reference: the packed ones can be read, and no full name has a loose one or
a packed one. -/
def Absent (repository : Repository) (name : String) : Prop :=
  ∃ file, repository.packed = .ok file ∧ ∀ full ∈ fullNames name,
    repository.loose full = .ok none ∧ file.find full = .ok none

theorem find_eq_none_iff : repository.find name = .ok none ↔ Absent repository name := by
  unfold find Absent
  cases hpacked : repository.packed with
  | error reason => simp [bind, Except.bind]
  | ok file =>
    simp only [bind, Except.bind, findFirst_eq_none_iff, findFull_eq_none_iff, Except.ok.injEq,
      exists_eq_left']

/-- A reference to another one is loose, so nothing is said about the end of a tag. -/
theorem peeled_of_symbolic {ref : Ref} {next : String} (h : repository.find name = .ok (some ref))
    (htarget : ref.target = .symbolic next) : ref.peeled = none := by
  obtain ⟨file, hpacked⟩ := packed_of_find h
  unfold find at h
  rw [hpacked] at h
  simp only [bind, Except.bind] at h
  generalize fullNames name = names at h
  induction names with
  | nil => cases h
  | cons full names ih =>
    rw [findFirst_cons] at h
    cases hfull : repository.findFull file full with
    | error reason =>
      rw [hfull] at h
      cases h
    | ok found =>
      rw [hfull] at h
      cases found with
      | none => exact ih h
      | some found =>
        cases h
        rcases findFull_cases hfull with ⟨_, _, _, _, hfound⟩ | ⟨_, entry, _, hfound⟩
        · cases hfound
          rfl
        · obtain ⟨entry, -, hentry⟩ := Option.map_eq_some_iff.mp hfound.symm
          rw [← hentry] at htarget
          cases htarget

/-! ## 2. Loose references -/

/-- There is no loose reference of a full name: a directory has its place, or nothing has and no
file is in the way. -/
def NoFile (repository : Repository) (name : String) : Prop :=
  repository.files.get? (placeOf name) = some .dir
    ∨ repository.files.get? (placeOf name) = none
      ∧ ∀ depth < (placeOf name).length, ∀ content,
          repository.files.get? ((placeOf name).take depth) ≠ some (.file content)

theorem loose_eq_none_iff : repository.loose name = .ok none ↔ NoFile repository name := by
  unfold NoFile
  unfold loose
  split
  · next content hfile => simp [hfile]
  · next hdir => simp [hdir]
  · next hnone =>
    have hblocked : isBlocked repository.files (placeOf name) = false ↔
        ∀ depth < (placeOf name).length, ∀ content,
          repository.files.get? ((placeOf name).take depth) ≠ some (.file content) := by
      unfold isBlocked
      simp only [List.any_eq_false, List.mem_range]
      refine forall₂_congr fun depth _ => ?_
      split
      · next content hfile => simp [hfile]
      · next hfree => simpa using hfree
    rw [← hblocked]
    cases isBlocked repository.files (placeOf name) <;> simp [hnone]

/-! ## 3. Packed references -/

/-- The packed references of a repository: they can be read through, and they are in order if their
header promises it. -/
inductive WellPacked (repository : Repository) : List Packed → Prop
  | listed {entries : List Packed} (holds : repository.packed = .ok (.listed entries)) :
      WellPacked repository entries
  | ordered {records : Bytes} {entries : List Packed}
      (holds : repository.packed = .ok (.ordered records))
      (readable : packedEntries? records.length records = some entries)
      (order : entries.Pairwise fun one other => one.name ≤ other.name) :
      WellPacked repository entries

/-- In packed references that keep their promise, a name is missing exactly if there is no entry of
this name or it is one that is never packed. -/
theorem WellPacked.find_eq_none_iff {entries : List Packed} (h : WellPacked repository entries)
    (hfile : repository.packed = .ok file) :
    file.find name = .ok none ↔
      (isPackable name = true → ∀ entry ∈ entries, entry.name ≠ name) := by
  have hfind : file.find name =
      if isPackable name then .ok (entries.reverse.find? fun entry => entry.name = name)
      else .ok none := by
    unfold PackedFile.find
    cases h with
    | listed holds =>
      rw [holds] at hfile
      cases hfile
      cases isPackable name <;> rfl
    | ordered holds readable order =>
      rw [holds] at hfile
      cases hfile
      simp only [searchOrdered_eq name readable order]
      cases isPackable name <;> rfl
  rw [hfind]
  cases isPackable name with
  | false => simp
  | true => simp [List.find?_eq_none]

/-- Where packed references keep their promise, an absent name is one without files and entries. -/
theorem absent_iff_of_wellPacked {entries : List Packed} (h : WellPacked repository entries) :
    Absent repository name ↔ ∀ full ∈ fullNames name,
      NoFile repository full ∧ (isPackable full = true → ∀ entry ∈ entries, entry.name ≠ full) := by
  have hfile : ∃ file, repository.packed = .ok file := by
    cases h with
    | listed holds => exact ⟨_, holds⟩
    | ordered holds => exact ⟨_, holds⟩
  obtain ⟨file, hfile⟩ := hfile
  constructor
  · rintro ⟨file', hfile', hnone⟩ full hfull
    obtain ⟨hloose, hpacked⟩ := hnone full hfull
    exact ⟨loose_eq_none_iff.mp hloose, (h.find_eq_none_iff hfile').mp hpacked⟩
  · intro hnone
    refine ⟨file, hfile, fun full hfull => ?_⟩
    obtain ⟨hloose, hpacked⟩ := hnone full hfull
    exact ⟨loose_eq_none_iff.mpr hloose, (h.find_eq_none_iff hfile).mpr hpacked⟩

end PublishOnce.Repository
