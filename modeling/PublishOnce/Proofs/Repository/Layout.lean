/-
PublishOnce.Proofs.Repository.Layout — for every commit there is a clone.

To say which commits count is to say little as long as no repository has them.
Here every sequence of bytes, whatever they are, becomes the commit that `HEAD`
of a bare repository leads to (`headCommit_ofCommit`), and the repository is
found where it was put (`open?_inDir`).

The commit is not looked at on the way. Its length is, since it is written in
front of it, and the digits there must not be taken for the zero byte at which
the object starts (`ofStored?_stored`).
-/
import PublishOnce.Proofs.FileTree.Changes
import PublishOnce.Proofs.Repository.Head
import PublishOnce.Proofs.Repository.Headers
import PublishOnce.Repository.Layout

namespace PublishOnce

/-! ## 1. Objects are read as they were stored -/

namespace Repository

theorem Kind.word_injective {one other : Kind} (h : one.word = other.word) : one = other := by
  revert h
  cases one <;> cases other <;> decide

/-- What stands in front of the data of an object. -/
def Object.header (object : Object) : Bytes :=
  Bytes.ofString (object.kind.word ++ " " ++ toString object.data.length)

theorem Object.zero_not_mem_header (object : Object) : (0 : UInt8) ∉ object.header := by
  intro hmem
  have hzero : Char.ofNat 0 ∈
      (object.kind.word ++ " " ++ toString object.data.length).toList :=
    Text.Utf8.mem_of_mem_encode (by decide) hmem
  rw [String.toList_append, List.mem_append] at hzero
  rcases hzero with hzero | hzero
  · revert hzero
    cases object.kind <;> decide
  · have hdigits : (toString object.data.length).toList = Nat.toDigits 10 object.data.length := by
      simp [toString, Nat.repr]
    rw [hdigits] at hzero
    exact absurd (Nat.isDigit_of_mem_toDigits (by decide) (by decide) hzero) (by decide)

theorem Object.header_eq_iff (object : Object) (kind : Kind) :
    object.header = Bytes.ofString (kind.word ++ " " ++ toString object.data.length) ↔
      kind = object.kind := by
  constructor
  · intro h
    exact (Kind.word_injective
      ((String.append_left_inj _).mp ((String.append_left_inj _).mp (Bytes.ofString_inj.mp h)))).symm
  · rintro rfl
    rfl

theorem Object.ofStored?_stored (object : Object) : ofStored? object.stored = some object := by
  have hzero : ∀ b ∈ object.header, decide (b = 0) = false := fun b hb =>
    decide_eq_false fun h => object.zero_not_mem_header (h ▸ hb)
  have hcut : Bytes.cut (· = 0) object.stored = (object.header, 0 :: object.data) :=
    Bytes.cut_append hzero (decide_eq_true rfl) object.data
  unfold ofStored?
  simp only [hcut, object.header_eq_iff]
  obtain ⟨kind, data⟩ := object
  cases kind <;> rfl

/-! ## 2. A repository with a commit -/

namespace Layout

/-- A repository whose branch `main` has one commit, of which the bytes are given. -/
def ofCommit (data : Bytes) : Layout where
  head := headOf "main"
  refs := [(branchRef "main", Bytes.ofString (commitId.digits ++ "\n"))]
  objects := [(commitId, ⟨.commit, data⟩)]

/-- The files of such a repository, but for its commit. -/
def frame : FileTree :=
  ⟨[(["HEAD"], .file (headOf "main")), (["refs"], .dir), (["refs", "heads"], .dir),
    (["objects"], .dir),
    (["refs", "heads", "main"], .file (Bytes.ofString (commitId.digits ++ "\n"))),
    (["objects", "00"], .dir)]⟩

theorem commitPlace_ne_nil : commitId.place ≠ [] := by decide +kernel

theorem tree_ofCommit (data : Bytes) :
    (ofCommit data).tree =
      frame.put commitId.place (.file (Object.stored ⟨.commit, data⟩)) := by
  have hbranch : plantFile ⟨frame.entries.take 4⟩ (placeOf (branchRef "main"))
      (Bytes.ofString (commitId.digits ++ "\n")) = ⟨frame.entries.take 5⟩ := by decide +kernel
  have hway : FileTree.makeWay ⟨frame.entries.take 5⟩ [] commitId.place.dropLast =
      some (frame, (["objects", "00"] : Location)) := by decide +kernel
  calc (ofCommit data).tree
      = plantFile (plantFile ⟨frame.entries.take 4⟩ (placeOf (branchRef "main"))
          (Bytes.ofString (commitId.digits ++ "\n"))) commitId.place
            (Object.stored ⟨.commit, data⟩) := rfl
    _ = plantFile ⟨frame.entries.take 5⟩ commitId.place (Object.stored ⟨.commit, data⟩) := by
      rw [hbranch]
    _ = frame.put commitId.place (.file (Object.stored ⟨.commit, data⟩)) := by
      unfold plantFile
      rw [hway]

/-- Only one of the files depends on the commit. -/
theorem get?_tree_ofCommit (data : Bytes) (place : Location) :
    (ofCommit data).tree.get? place =
      if place = commitId.place then some (.file (Object.stored ⟨.commit, data⟩))
      else frame.get? place := by
  rw [tree_ofCommit, FileTree.get?_put commitPlace_ne_nil]

theorem object?_ofCommit (data : Bytes) :
    Repository.object? ⟨(ofCommit data).tree⟩ commitId = some ⟨.commit, data⟩ := by
  unfold object?
  simp only [get?_tree_ofCommit, if_true, Object.ofStored?_stored]

theorem headHolds_ofCommit (data : Bytes) :
    HeadHolds ⟨(ofCommit data).tree⟩ (.symbolic (branchRef "main")) := by
  refine ⟨headOf "main", ?_, by decide +kernel⟩
  rw [get?_tree_ofCommit, if_neg (by decide +kernel)]
  decide +kernel

theorem find_ofCommit (data : Bytes) :
    Repository.find ⟨(ofCommit data).tree⟩ (branchRef "main") =
      .ok (some ⟨branchRef "main", .direct commitId, none⟩) := by
  have hnames : fullNames (branchRef "main") = [branchRef "main"] := by decide +kernel
  have htarget : Target.ofLoose? (Bytes.ofString (commitId.digits ++ "\n")) =
      some (.direct commitId) := by decide +kernel
  have hpacked : Repository.packed ⟨(ofCommit data).tree⟩ = .ok (.listed []) := by
    unfold Repository.packed
    rw [get?_tree_ofCommit, if_neg (by decide +kernel)]
    rfl
  have hloose : Repository.loose ⟨(ofCommit data).tree⟩ (branchRef "main") =
      .ok (some (Bytes.ofString (commitId.digits ++ "\n"))) := by
    have hplace : placeOf (branchRef "main") = (["refs", "heads", "main"] : Location) := by
      decide +kernel
    unfold loose
    rw [hplace, get?_tree_ofCommit, if_neg (by decide +kernel)]
    rfl
  unfold find
  rw [hpacked, hnames]
  simp only [findFirst, findFull, hloose, htarget, bind, Except.bind]

/-- Whatever the bytes are, there is a repository in which they are the commit of `HEAD`. -/
theorem headCommit_ofCommit (data : Bytes) : HeadCommit ⟨(ofCommit data).tree⟩ data :=
  .branch (headHolds_ofCommit data) (find_ofCommit data)
    (.followed rfl (Nat.zero_le _) (.here _) (.commit (object?_ofCommit data)))

end Layout

end Repository

/-! ## 3. The repository in a directory -/

namespace FileTree

/-- A file system with one directory in the root, which holds a tree. -/
def inDir (name : Bytes) (tree : FileTree) : FileTree :=
  ⟨([name], .dir) :: tree.entries.map fun row => (name :: row.1, row.2)⟩

theorem below_inDir {name : Bytes} {tree : FileTree}
    (h : ∀ row ∈ tree.entries, row.1 ≠ []) : (inDir name tree).below [name] = tree := by
  unfold inDir below
  rw [List.filterMap_cons_none (by simp), List.filterMap_map]
  congr 1
  refine (List.filterMap_congr fun row hrow => ?_).trans List.filterMap_some
  have hlength : 0 < row.1.length := List.length_pos_iff.mpr (h row hrow)
  simp [hlength]

end FileTree

namespace Repository

/-- A repository is opened where it stands, if its name says that it is one. -/
theorem open?_inDir {tree : FileTree} (hrows : ∀ row ∈ tree.entries, row.1 ≠ [])
    (hrepository : isRepository tree = true) :
    open? (tree.inDir "site.git") [] "site.git" = some ⟨tree⟩ := by
  have hcandidates : candidates "site.git" = [Path.ofText "site.git"] := by decide +kernel
  have hsegments : FileTree.segments "site.git" = [Bytes.ofString "site.git"] := by decide +kernel
  have hstart : FileTree.startOf [] "site.git" = [] := by decide +kernel
  have hresolve : (tree.inDir "site.git").resolve [] "site.git" = .ok ["site.git"] := by
    unfold FileTree.resolve
    rw [hsegments, hstart]
    rfl
  have hdir : (tree.inDir "site.git").isDirAt ["site.git"] = true :=
    decide_eq_true rfl
  unfold open?
  rw [hcandidates, List.findSome?_cons]
  simp only [hresolve, hdir, FileTree.below_inDir hrows, hrepository, Bool.and_self, if_true]

/-- For every commit there is a repository that can be opened and in which `HEAD` leads to it. -/
theorem exists_open?_headCommit (data : Bytes) :
    ∃ files cwd bare repository, open? files cwd bare = some repository
      ∧ HeadCommit repository data := by
  have hrows : ∀ row ∈ (Layout.ofCommit data).tree.entries, row.1 ≠ [] := by
    rw [Layout.tree_ofCommit]
    intro row hrow
    rcases List.mem_append.mp hrow with hframe | hcommit
    · have hall : Layout.frame.entries.all (fun row => row.1 ≠ []) = true := by decide +kernel
      exact of_decide_eq_true (List.all_eq_true.mp hall row (List.mem_of_mem_filter hframe))
    · rw [List.mem_singleton.mp hcommit]
      exact Layout.commitPlace_ne_nil
  have hrepository : isRepository (Layout.ofCommit data).tree = true := by
    have hframe : isRepository Layout.frame = true := by decide +kernel
    unfold isRepository FileTree.isDirAt at *
    rwa [Layout.get?_tree_ofCommit, Layout.get?_tree_ofCommit, Layout.get?_tree_ofCommit,
      if_neg (by decide +kernel), if_neg (by decide +kernel), if_neg (by decide +kernel)]
  exact ⟨_, _, _, _, open?_inDir hrows hrepository, Layout.headCommit_ofCommit data⟩

end Repository

end PublishOnce
