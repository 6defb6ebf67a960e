/-
PublishOnce.Proofs.Repository.Head — what `HEAD` leads to.

Reading a repository has three ends. `HEAD` names a branch that does not exist;
it leads to a commit, over a branch or at once; or something on the way cannot
be read. `lastSubject_eq_none_iff` and `lastSubject_eq_some_iff` say which end
gives which subject, and what is left are the errors.

All of it is about a `HEAD` that is a file, and whatever can be opened has one
(`head_of_open?`).
-/
import PublishOnce.Proofs.Repository.Resolution

namespace PublishOnce.Repository

variable {repository : Repository} {data : Bytes}

/-! ## 1. From `HEAD` to a commit -/

/-- What can be opened has a file `HEAD`. -/
theorem head_of_open? {files : FileTree} {cwd : Location} {path : Path} {repository : Repository}
    (h : open? files cwd path = some repository) :
    ∃ content, repository.files.get? ["HEAD"] = some (.file content) := by
  obtain ⟨candidate, -, h⟩ := List.exists_of_findSome?_eq_some h
  split at h
  · next place _ =>
    obtain ⟨hopen, hfiles⟩ := Option.ite_none_right_eq_some.mp h
    simp only [isRepository, Bool.and_eq_true] at hopen
    obtain ⟨-, ⟨hhead, -⟩, -⟩ := hopen
    obtain ⟨entry, hentry, hfile⟩ := (Option.any_eq_true ..).mp hhead
    cases Option.some.inj hfiles
    cases entry with
    | file content => exact ⟨content, hentry⟩
    | dir => simp at hfile
  · cases h

/-- What `HEAD` holds. -/
def HeadHolds (repository : Repository) (target : Target) : Prop :=
  ∃ content, repository.files.get? ["HEAD"] = some (.file content)
    ∧ Target.ofLoose? content = some target

theorem HeadHolds.unique {target other : Target} (h : HeadHolds repository target)
    (h' : HeadHolds repository other) : target = other := by
  obtain ⟨content, hfile, hholds⟩ := h
  obtain ⟨content', hfile', hholds'⟩ := h'
  rw [hfile] at hfile'
  cases hfile'
  rw [hholds] at hholds'
  exact Option.some.inj hholds'

/-- The commit that `HEAD` leads to. -/
inductive HeadCommit (repository : Repository) (data : Bytes) : Prop
  | branch {name : String} {ref : Ref} (holds : HeadHolds repository (.symbolic name))
      (found : repository.find name = .ok (some ref)) (commit : RefCommit repository ref data)
  | detached {file : PackedFile} {id : Id} {way : List Id} (holds : HeadHolds repository (.direct id))
      (readable : repository.packed = .ok file) (peels : Peels repository id way data)

/-- `HEAD` names a branch that does not exist. -/
def Unborn (repository : Repository) : Prop :=
  ∃ name, HeadHolds repository (.symbolic name) ∧ repository.find name = .ok none

/-- Where `HEAD` is a file, this is what is made of it. -/
theorem head_apply {content : Bytes}
    (h : repository.files.get? ["HEAD"] = some (.file content)) :
    repository.head =
      match repository.packed, Target.ofLoose? content with
      | .error reason, _ => .error reason
      | .ok _, none => .error .unreadable
      | .ok _, some (.direct id) => .ok (.detached id)
      | .ok _, some (.symbolic name) =>
        match repository.find name with
        | .error reason => .error reason
        | .ok none => .ok .unborn
        | .ok (some ref) => .ok (.branch ref) := by
  have hloose : repository.loose "HEAD" = .ok (some content) := by
    have hplace : placeOf "HEAD" = [Bytes.ofString "HEAD"] := by decide +kernel
    unfold loose
    rw [hplace, h]
  have hnames : ∃ more, fullNames "HEAD" = "HEAD" :: more := ⟨_, rfl⟩
  obtain ⟨more, hnames⟩ := hnames
  unfold head
  conv => lhs; arg 1; unfold find
  rw [hnames]
  cases hpacked : repository.packed with
  | error reason => rfl
  | ok file =>
    simp only [findFirst, findFull, hloose, bind, Except.bind]
    cases Target.ofLoose? content with
    | none => rfl
    | some target =>
      cases target with
      | direct id => rfl
      | symbolic name =>
        simp only
        cases repository.find name with
        | error reason => rfl
        | ok found => cases found <;> rfl

variable {content : Bytes}

theorem headHolds_iff (h : repository.files.get? ["HEAD"] = some (.file content))
    {target : Target} : HeadHolds repository target ↔ Target.ofLoose? content = some target := by
  constructor
  · rintro ⟨content', hfile, hholds⟩
    rw [h] at hfile
    cases hfile
    exact hholds
  · exact fun hholds => ⟨content, h, hholds⟩

/-- Nothing is found where packed references cannot be read, not even that there is nothing. -/
theorem packed_of_find {name : String} {found : Option Ref}
    (h : repository.find name = .ok found) : ∃ file, repository.packed = .ok file := by
  unfold find at h
  cases hpacked : repository.packed with
  | error reason =>
    rw [hpacked] at h
    cases h
  | ok file => exact ⟨file, rfl⟩

/-- What `HEAD` leads to, case by case. Behind a broken file of packed references it leads nowhere. -/
inductive HeadLeads (repository : Repository) : Head → Prop
  | unborn (unborn : Unborn repository) : HeadLeads repository .unborn
  | branch {name : String} {ref : Ref} (holds : HeadHolds repository (.symbolic name))
      (found : repository.find name = .ok (some ref)) : HeadLeads repository (.branch ref)
  | detached {id : Id} {file : PackedFile} (holds : HeadHolds repository (.direct id))
      (readable : repository.packed = .ok file) : HeadLeads repository (.detached id)

theorem head_eq_ok_iff (h : repository.files.get? ["HEAD"] = some (.file content)) {head : Head} :
    repository.head = .ok head ↔ HeadLeads repository head := by
  rw [head_apply h]
  constructor
  · intro hhead
    cases hpacked : repository.packed with
    | error reason => simp [hpacked] at hhead
    | ok file =>
      cases htarget : Target.ofLoose? content with
      | none => simp [hpacked, htarget] at hhead
      | some target =>
        have hholds : HeadHolds repository target := (headHolds_iff h).mpr htarget
        cases target with
        | direct id =>
          simp only [hpacked, htarget, Except.ok.injEq] at hhead
          exact hhead ▸ .detached hholds hpacked
        | symbolic name =>
          simp only [hpacked, htarget] at hhead
          cases hfind : repository.find name with
          | error reason => simp [hfind] at hhead
          | ok found =>
            cases found with
            | none =>
              simp only [hfind, Except.ok.injEq] at hhead
              exact hhead ▸ .unborn ⟨name, hholds, hfind⟩
            | some ref =>
              simp only [hfind, Except.ok.injEq] at hhead
              exact hhead ▸ .branch hholds hfind
  · intro hleads
    cases hleads with
    | unborn unborn =>
      obtain ⟨name, hholds, hfind⟩ := unborn
      obtain ⟨file, hpacked⟩ := packed_of_find hfind
      simp only [hpacked, (headHolds_iff h).mp hholds, hfind]
    | branch holds found =>
      obtain ⟨file, hpacked⟩ := packed_of_find found
      simp only [hpacked, (headHolds_iff h).mp holds, found]
    | detached holds readable => simp only [readable, (headHolds_iff h).mp holds]

/-! ## 2. From `HEAD` to a subject -/

/-- The bytes of a commit have a subject. -/
def HasSubject (data : Bytes) (subject : String) : Prop :=
  ∃ message, Commit.message? data = some message ∧ Subject.ofMessage message = subject

/-- `HEAD` leads to a commit with this subject. -/
def HeadCarries (repository : Repository) (subject : String) : Prop :=
  ∃ data, HeadCommit repository data ∧ HasSubject data subject

/-- A reference exists and leads to a commit with this subject. -/
def RefCarries (repository : Repository) (name subject : String) : Prop :=
  ∃ ref data, repository.find name = .ok (some ref) ∧ RefCommit repository ref data
    ∧ HasSubject data subject

/-- Where `HEAD` names a reference, it is the reference that matters. -/
theorem headCarries_iff_refCarries {name subject : String}
    (h : HeadHolds repository (.symbolic name)) :
    repository.HeadCarries subject ↔ repository.RefCarries name subject := by
  constructor
  · rintro ⟨data, hcommit, hsubject⟩
    cases hcommit with
    | branch holds found commit =>
      cases h.unique holds
      exact ⟨_, data, found, commit, hsubject⟩
    | detached holds readable peels => cases h.unique holds
  · rintro ⟨ref, data, found, commit, hsubject⟩
    exact ⟨data, .branch h found commit, hsubject⟩

theorem subjectOf_eq_ok_iff {subject : String} :
    subjectOf data = .ok subject ↔ HasSubject data subject := by
  unfold subjectOf HasSubject
  cases Commit.message? data <;> simp

theorem subjectOfFound_eq_ok_iff {commit : Option Bytes} {subject : String} :
    subjectOfFound commit = .ok subject ↔
      ∃ data, commit = some data ∧ HasSubject data subject := by
  unfold subjectOfFound
  cases commit with
  | none => simp
  | some data => simp [subjectOf_eq_ok_iff]

theorem map_some_eq_ok_some_iff {outcome : Except ReadError String} {subject : String} :
    outcome.map some = .ok (some subject) ↔ outcome = .ok subject := by
  cases outcome <;> simp [Except.map]

theorem map_some_ne_ok_none {outcome : Except ReadError String} :
    outcome.map some ≠ .ok none := by
  cases outcome <;> simp [Except.map]

/-- There is no subject exactly if `HEAD` names a branch that does not exist. -/
theorem lastSubject_eq_none_iff (h : repository.files.get? ["HEAD"] = some (.file content)) :
    repository.lastSubject = .ok none ↔ Unborn repository := by
  unfold lastSubject
  constructor
  · intro hsubject
    cases hhead : repository.head with
    | error reason => simp [hhead] at hsubject
    | ok head =>
      cases (head_eq_ok_iff h).mp hhead with
      | unborn unborn => exact unborn
      | branch holds found => exact absurd (hhead ▸ hsubject) map_some_ne_ok_none
      | detached holds readable => exact absurd (hhead ▸ hsubject) map_some_ne_ok_none
  · intro unborn
    rw [(head_eq_ok_iff h).mpr (.unborn unborn)]

/-- The subject is that of the commit that `HEAD` leads to. -/
theorem lastSubject_eq_some_iff (h : repository.files.get? ["HEAD"] = some (.file content))
    {subject : String} :
    repository.lastSubject = .ok (some subject) ↔ repository.HeadCarries subject := by
  unfold lastSubject
  constructor
  · intro hsubject
    cases hhead : repository.head with
    | error reason => simp [hhead] at hsubject
    | ok head =>
      rw [hhead] at hsubject
      cases (head_eq_ok_iff h).mp hhead with
      | unborn unborn => simp at hsubject
      | branch holds found =>
        obtain ⟨data, hcommit, hdata⟩ :=
          subjectOfFound_eq_ok_iff.mp (map_some_eq_ok_some_iff.mp hsubject)
        exact ⟨data, .branch holds found (commitBehindRef?_eq_some_iff.mp hcommit), hdata⟩
      | detached holds readable =>
        obtain ⟨data, hcommit, hdata⟩ :=
          subjectOfFound_eq_ok_iff.mp (map_some_eq_ok_some_iff.mp hsubject)
        obtain ⟨way, peels⟩ := commitBehind?_eq_some_iff.mp hcommit
        exact ⟨data, .detached holds readable peels, hdata⟩
  · rintro ⟨data, hcommit, hdata⟩
    cases hcommit with
    | branch holds found commit =>
      rw [(head_eq_ok_iff h).mpr (.branch holds found)]
      refine map_some_eq_ok_some_iff.mpr (subjectOfFound_eq_ok_iff.mpr ⟨data, ?_, hdata⟩)
      exact commitBehindRef?_eq_some_iff.mpr commit
    | detached holds readable peels =>
      rw [(head_eq_ok_iff h).mpr (.detached holds readable)]
      refine map_some_eq_ok_some_iff.mpr (subjectOfFound_eq_ok_iff.mpr ⟨data, ?_, hdata⟩)
      exact commitBehind?_eq_some_iff.mpr ⟨_, peels⟩

end PublishOnce.Repository
