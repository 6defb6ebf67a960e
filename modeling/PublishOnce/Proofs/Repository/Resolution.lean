/-
PublishOnce.Proofs.Repository.Resolution — what a reference leads to.

The program follows references and tags with a bound: on the number of
references because git has one, on the number of tags because there are no
more tags than files. Here the same journeys are relations without a bound
(`Leads`, `Peels`), and the program is shown to make exactly the journeys that
exist, short enough ones in the case of references.

The bound on tags is no restriction: a chain of tags that comes to an end comes
by no object twice, and every object on it has a file of its own
(`Peels.length_le`).
-/
import Mathlib.Data.List.Nodup
import Mathlib.Data.List.Perm.Subperm
import Mathlib.Logic.Relation
import PublishOnce.Proofs.Bytes
import PublishOnce.Repository.Head

namespace PublishOnce.Repository

variable {repository : Repository} {data : Bytes} {id : Id}

/-! ## 1. From reference to reference -/

/-- A target leads to an object, over a number of references. -/
inductive Leads (repository : Repository) : Nat → Target → Id → Prop
  | here (id : Id) : Leads repository 0 (.direct id) id
  | further {steps : Nat} {name : String} {ref : Ref} {id : Id}
      (found : repository.find name = .ok (some ref))
      (rest : Leads repository steps ref.target id) :
      Leads repository (steps + 1) (.symbolic name) id

/-- References are followed as long as the bound allows. -/
theorem follow_eq_some_iff {limit : Nat} {target : Target} :
    repository.follow limit target = some id ↔
      ∃ steps ≤ limit, Leads repository steps target id := by
  induction limit, target using follow.induct repository with
  | case1 limit aim =>
    simp only [follow, Option.some.injEq]
    constructor
    · rintro rfl
      exact ⟨0, Nat.zero_le _, .here _⟩
    · rintro ⟨steps, -, leads⟩
      cases leads
      rfl
  | case2 name =>
    simp only [follow, reduceCtorEq, false_iff]
    rintro ⟨steps, hle, leads⟩
    cases leads
    omega
  | case3 more name ref found ih =>
    simp only [follow, found]
    rw [ih]
    constructor
    · rintro ⟨steps, hle, leads⟩
      exact ⟨steps + 1, by omega, .further found leads⟩
    · rintro ⟨steps, hle, leads⟩
      cases leads with
      | further found' rest =>
        rw [found] at found'
        cases found'
        exact ⟨_, by omega, rest⟩
  | case4 more name missing =>
    have hnone : repository.follow (more + 1) (.symbolic name) = none := by
      unfold follow
      split
      · next ref found => exact (missing ref found).elim
      · rfl
    rw [hnone]
    simp only [reduceCtorEq, false_iff]
    rintro ⟨steps, -, leads⟩
    cases leads with
    | further found rest => exact missing _ found

/-- One reference leads to the next. -/
def Follows (repository : Repository) (name next : String) : Prop :=
  ∃ ref, repository.find name = .ok (some ref) ∧ ref.target = .symbolic next

theorem Leads.of_follows {steps : Nat} {name next : String} (hnext : Follows repository name next)
    (h : Leads repository steps (.symbolic name) id) :
    ∃ fewer < steps, Leads repository fewer (.symbolic next) id := by
  obtain ⟨ref, hfind, htarget⟩ := hnext
  cases h with
  | @further fewer _ _ _ found rest =>
    rw [hfind] at found
    cases found
    exact ⟨fewer, Nat.lt_succ_self fewer, htarget ▸ rest⟩

theorem Leads.of_transGen {steps : Nat} {name last : String}
    (hchain : Relation.TransGen (Follows repository) name last)
    (h : Leads repository steps (.symbolic name) id) :
    ∃ fewer < steps, Leads repository fewer (.symbolic last) id := by
  induction hchain with
  | single hnext => exact h.of_follows hnext
  | tail _ hnext ih =>
    obtain ⟨fewer, hlt, hleads⟩ := ih
    obtain ⟨fewest, hlt', hleads'⟩ := hleads.of_follows hnext
    exact ⟨fewest, Nat.lt_trans hlt' hlt, hleads'⟩

/-- A name that is on a circle leads to no object: the circle could be left out again and again. -/
theorem not_leads_of_circle {name : String}
    (hcircle : Relation.TransGen (Follows repository) name name) (steps : Nat) :
    ¬ Leads repository steps (.symbolic name) id := by
  induction steps using Nat.strongRecOn with
  | ind steps ih =>
    intro h
    obtain ⟨fewer, hlt, hleads⟩ := h.of_transGen hcircle
    exact ih fewer hlt hleads

/-- A chain of references, however long, leads to no object if it comes to a name that is not found
or that is on a circle. -/
theorem not_leads_of_chain {name last : String}
    (hchain : Relation.ReflTransGen (Follows repository) name last)
    (hend : (∀ ref, repository.find last ≠ .ok (some ref))
      ∨ Relation.TransGen (Follows repository) last last) (steps : Nat) :
    ¬ Leads repository steps (.symbolic name) id := by
  have hlast : ∀ steps, ¬ Leads repository steps (.symbolic last) id := by
    rcases hend with hmissing | hcircle
    · intro steps h
      cases h with
      | further found rest => exact hmissing _ found
    · exact not_leads_of_circle hcircle
  intro h
  rcases Relation.reflTransGen_iff_eq_or_transGen.mp hchain with heq | hchain
  · exact hlast steps (heq ▸ h)
  · obtain ⟨fewer, -, hleads⟩ := h.of_transGen hchain
    exact hlast fewer hleads

/-! ## 2. From tag to tag -/

/-- An object is a commit, or a tag behind which there is one; these are the objects on the way. -/
inductive Peels (repository : Repository) : Id → List Id → Bytes → Prop
  | commit {id : Id} {data : Bytes} (stored : repository.object? id = some ⟨.commit, data⟩) :
      Peels repository id [id] data
  | tag {id aim : Id} {way : List Id} {tag data : Bytes}
      (stored : repository.object? id = some ⟨.tag, tag⟩) (tagged : tagged? tag = some aim)
      (rest : Peels repository aim way data) : Peels repository id (id :: way) data

theorem peel_eq_some_iff {limit : Nat} :
    repository.peel limit id = some data ↔
      ∃ way, way.length ≤ limit ∧ Peels repository id way data := by
  induction limit generalizing id with
  | zero =>
    simp only [peel, reduceCtorEq, Nat.le_zero_eq, false_iff]
    rintro ⟨way, hlength, peels⟩
    cases peels <;> simp at hlength
  | succ more ih =>
    constructor
    · intro h
      unfold peel at h
      split at h
      · next stored =>
        cases h
        exact ⟨[id], by simp, .commit stored⟩
      · next tag stored =>
        obtain ⟨aim, tagged, h⟩ := Option.bind_eq_some_iff.mp h
        obtain ⟨way, hlength, peels⟩ := ih.mp h
        exact ⟨id :: way, by simpa using hlength, .tag stored tagged peels⟩
      · cases h
    · rintro ⟨way, hlength, peels⟩
      cases peels with
      | commit stored => simp [peel, stored]
      | tag stored tagged rest =>
        simp only [peel, stored, tagged, Option.bind_some]
        exact ih.mpr ⟨_, by simpa using hlength, rest⟩

namespace Peels

variable {way : List Id}

/-- There is one way from an object, to one commit. -/
theorem unique {other : List Id} {data' : Bytes} (h : Peels repository id way data)
    (h' : Peels repository id other data') : way = other ∧ data = data' := by
  induction h generalizing other with
  | commit stored =>
    cases h' with
    | commit stored' =>
      rw [stored] at stored'
      cases stored'
      exact ⟨rfl, rfl⟩
    | tag stored' =>
      rw [stored] at stored'
      cases stored'
  | tag stored tagged rest ih =>
    cases h' with
    | commit stored' =>
      rw [stored] at stored'
      cases stored'
    | tag stored' tagged' rest' =>
      rw [stored] at stored'
      cases stored'
      rw [tagged] at tagged'
      cases tagged'
      obtain ⟨rfl, rfl⟩ := ih rest'
      exact ⟨rfl, rfl⟩

/-- From every object on the way the rest of the way goes on. -/
theorem from_mem (h : Peels repository id way data) {stop : Id} (hstop : stop ∈ way) :
    ∃ rest, rest <:+ way ∧ Peels repository stop rest data := by
  induction h with
  | commit stored =>
    obtain rfl := List.mem_singleton.mp hstop
    exact ⟨_, List.suffix_rfl, .commit stored⟩
  | tag stored tagged peels ih =>
    rcases List.mem_cons.mp hstop with rfl | hstop
    · exact ⟨_, List.suffix_rfl, .tag stored tagged peels⟩
    · obtain ⟨rest, hrest, hpeels⟩ := ih hstop
      exact ⟨rest, hrest.trans (List.suffix_cons _ _), hpeels⟩

/-- No way that comes to an end comes by an object twice: it would go on from there as before. -/
theorem nodup (h : Peels repository id way data) : way.Nodup := by
  induction h with
  | commit stored => exact List.nodup_singleton _
  | @tag id aim way _ _ stored tagged peels ih =>
    refine List.nodup_cons.mpr ⟨fun hagain => ?_, ih⟩
    obtain ⟨rest, hrest, hpeels⟩ := peels.from_mem hagain
    obtain ⟨hsame, -⟩ := hpeels.unique (.tag stored tagged peels)
    have hlength := hrest.length_le
    rw [hsame, List.length_cons] at hlength
    omega

end Peels

theorem Id.place_injective : Function.Injective Id.place := by
  intro one other h
  simp only [Id.place, List.cons.injEq, true_and, and_true, Bytes.ofString_inj,
    String.ofList_inj] at h
  obtain ⟨hfront, hrest⟩ := h
  have hdigits : one.digits.toList = other.digits.toList := by
    rw [← List.take_append_drop 2 one.digits.toList, hfront, hrest, List.take_append_drop]
  cases one
  cases other
  rw [Id.mk.injEq, ← String.toList_inj]
  exact hdigits

/-- An object has a row in the table of files. -/
theorem place_mem_of_object? {object : Object} (h : repository.object? id = some object) :
    id.place ∈ repository.files.entries.map (·.1) := by
  unfold object? FileTree.get? at h
  rw [if_neg (by simp [Id.place])] at h
  cases hrow : repository.files.entries.lookup id.place with
  | none =>
    rw [hrow] at h
    cases h
  | some entry =>
    obtain ⟨before, behind, hrows, -⟩ := List.lookup_eq_some_iff.mp hrow
    simp [hrows]

theorem Peels.length_le {way : List Id} (h : Peels repository id way data) :
    way.length ≤ repository.files.entries.length := by
  have hsubset : way.map Id.place ⊆ repository.files.entries.map (·.1) := by
    intro place hplace
    obtain ⟨stop, hstop, rfl⟩ := List.mem_map.mp hplace
    obtain ⟨rest, -, hpeels⟩ := h.from_mem hstop
    cases hpeels with
    | commit stored => exact place_mem_of_object? stored
    | tag stored => exact place_mem_of_object? stored
  have hnodup : (way.map Id.place).Nodup := h.nodup.map Id.place_injective
  simpa using (hnodup.subperm hsubset).length_le

/-- The commit behind an object is the one that is there, however long the way to it. -/
theorem commitBehind?_eq_some_iff :
    repository.commitBehind? id = some data ↔ ∃ way, Peels repository id way data := by
  unfold commitBehind?
  rw [peel_eq_some_iff]
  constructor
  · rintro ⟨way, -, peels⟩
    exact ⟨way, peels⟩
  · rintro ⟨way, peels⟩
    exact ⟨way, Nat.le_succ_of_le peels.length_le, peels⟩

/-! ## 3. From a reference to a commit -/

/-- The commit behind a reference: the one that a packed tag is said to be for, or else the one that
references and then tags lead to. -/
inductive RefCommit (repository : Repository) (ref : Ref) (data : Bytes) : Prop
  | said {id : Id} (said : ref.peeled = some id)
      (stored : repository.object? id = some ⟨.commit, data⟩)
  | followed {steps : Nat} {id : Id} {way : List Id} (unsaid : ref.peeled = none)
      (near : steps ≤ followLimit) (leads : Leads repository steps ref.target id)
      (peels : Peels repository id way data)

theorem commitBehindRef?_eq_some_iff {ref : Ref} :
    repository.commitBehindRef? ref = some data ↔ RefCommit repository ref data := by
  unfold commitBehindRef?
  cases hsaid : ref.peeled with
  | some id =>
    simp only [peel_eq_some_iff]
    constructor
    · rintro ⟨way, hlength, peels⟩
      cases peels with
      | commit stored => exact .said hsaid stored
      | tag stored tagged rest => cases rest <;> simp at hlength
    · intro h
      cases h with
      | said said stored =>
        rw [hsaid] at said
        cases said
        exact ⟨[id], by simp, .commit stored⟩
      | followed unsaid =>
        rw [hsaid] at unsaid
        cases unsaid
  | none =>
    simp only [Option.bind_eq_some_iff, follow_eq_some_iff, commitBehind?_eq_some_iff]
    constructor
    · rintro ⟨id, ⟨steps, near, leads⟩, way, peels⟩
      exact .followed hsaid near leads peels
    · intro h
      cases h with
      | said said =>
        rw [hsaid] at said
        cases said
      | followed unsaid near leads peels => exact ⟨_, ⟨_, near, leads⟩, _, peels⟩

end PublishOnce.Repository
