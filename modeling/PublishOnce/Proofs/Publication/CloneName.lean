/-
PublishOnce.Proofs.Publication.CloneName — the name of a clone, and what is
removed under it.

The directory of a clone is removed with all that is in it, so the address of a
remote repository must not be able to point it anywhere else. It cannot: whatever
the address is, the name made of it has no separator in it and leads neither back
nor up (`IsMemberName`). Joined to the scratch directory it is the last component
of a path whose parent is the scratch directory again, so a removal takes away
a member of that directory or nothing (`clone_is_member_of_scratch`).

That the name ends in `.git` is more than git asks for, and it is what keeps the
name away from `.` and `..`.
-/
import Mathlib.Data.List.TakeWhile
import PublishOnce.Proofs.Act
import PublishOnce.Proofs.Bytes
import PublishOnce.Proofs.FileTree.Changes
import PublishOnce.Proofs.FileTree.Components
import PublishOnce.Publication.Compare

namespace PublishOnce

/-! ## 1. The name of a clone -/

namespace CloneName

variable {name part : List Char}

/-- A part of an address has no separator in it. -/
def IsPart (part : List Char) : Prop := ∀ c ∈ part, isSeparator c = false

theorem isPart_of_all (h : part.all (fun c => !isSeparator c) = true) : IsPart part :=
  fun c hc => by simpa using List.all_eq_true.mp h c hc

theorem isPart_ending : IsPart ending := isPart_of_all (by decide +kernel)

theorem isPart_lastPart (address : List Char) : IsPart (lastPart address).1 := by
  intro c hc
  unfold lastPart at hc
  simpa using List.mem_takeWhile_imp (List.mem_reverse.mp hc)

theorem isPart_base (remote : List Char) : IsPart (base remote) := by
  unfold base
  simp only
  split
  · split
    · exact isPart_lastPart _
    · exact fun c hc => absurd hc List.not_mem_nil
  · exact isPart_lastPart _

theorem ending_suffix_withEnding (name : List Char) : ending <:+ withEnding name := by
  unfold withEnding
  split
  · next h => exact List.isSuffixOf_iff_suffix.mp h
  · exact List.suffix_append ..

theorem isPart_withEnding (h : IsPart name) : IsPart (withEnding name) := by
  unfold withEnding
  split
  · exact h
  · exact List.forall_mem_append.mpr ⟨h, isPart_ending⟩

theorem isPart_ofChars (remote : List Char) : IsPart (ofChars remote) := by
  refine isPart_withEnding ?_
  split
  · exact isPart_of_all (by decide +kernel)
  · exact isPart_base remote

end CloneName

/-- The name of a clone names a member of a directory, whatever the address is. -/
theorem isName_cloneName (remote : String) : Location.IsName (cloneName remote) := by
  have hlength : 4 ≤ (cloneName remote).toList.length := by
    rw [cloneName, String.toList_ofList]
    exact (CloneName.ending_suffix_withEnding _).length_le
  have hne (short : String) (hshort : short.toList.length < 4) :
      Bytes.ofString (cloneName remote) ≠ short := by
    intro h
    rw [Bytes.ofString_inj.mp h] at hlength
    omega
  exact ⟨hne "" (by decide), hne "." (by decide), hne ".." (by decide)⟩

theorem slash_not_mem_cloneName (remote : String) : Path.slash ∉ Bytes.ofString (cloneName remote) := by
  intro h
  have hslash : '/' ∈ (cloneName remote).toList := (Bytes.mem_ofString_iff (by decide)).mp h
  rw [cloneName, String.toList_ofList] at hslash
  cases CloneName.isPart_ofChars _ _ hslash

/-! ## 2. The place of a clone -/

section
variable {remote : String} {scratch : Path} {cwd : Location}

theorem segments_clonePath (remote : String) (scratch : Path) :
    ∃ front, FileTree.segments (clonePath remote scratch) = front ++ [Bytes.ofString (cloneName remote)]
      ∧ (∀ segment ∈ front, segment ∈ FileTree.segments scratch)
      ∧ ∀ cwd, (FileTree.startOf cwd (clonePath remote scratch)).follow front =
          scratch.place cwd :=
  Path.segments_join_name (slash_not_mem_cloneName remote) scratch

/-- A clone is made in the scratch directory. -/
theorem place_clonePath (remote : String) (scratch : Path) (cwd : Location) :
    (clonePath remote scratch).place cwd =
      scratch.place cwd ++ [Bytes.ofString (cloneName remote)] := by
  obtain ⟨front, hsegments, -, hfront⟩ := segments_clonePath remote scratch
  rw [Path.place, hsegments, Location.follow_append, hfront, Location.follow_cons,
    Location.step_of_isName (isName_cloneName remote), Location.follow_nil]

theorem place_clonePath_ne_nil : (clonePath remote scratch).place cwd ≠ [] := by
  rw [place_clonePath]
  simp

theorem isEmpty_bytes_clonePath : (clonePath remote scratch).bytes.isEmpty = false := by
  obtain ⟨front, hsegments, -, -⟩ := segments_clonePath remote scratch
  exact Path.isEmpty_bytes_of_segments hsegments (isName_cloneName remote).1

theorem isForward_clonePath (h : scratch.IsForward) : (clonePath remote scratch).IsForward := by
  obtain ⟨front, hsegments, hmem, -⟩ := segments_clonePath remote scratch
  unfold Path.IsForward
  rw [hsegments, List.mem_append, not_or, List.mem_singleton]
  exact ⟨fun hup => h (hmem _ hup), Ne.symm (isName_cloneName remote).2.2⟩

/-- If a clone can be made and no directory is gone up from, there is nothing in its place. -/
theorem voidAt_clonePath {files : FileTree} (hrooted : files.IsRooted) (hforward : scratch.IsForward)
    (hfree : files.pathExists cwd (clonePath remote scratch) = false) :
    files.VoidAt ((clonePath remote scratch).place cwd) := by
  obtain ⟨front, hsegments, -, -⟩ := segments_clonePath remote scratch
  exact FileTree.voidAt_of_not_pathExists hrooted (isForward_clonePath hforward) hsegments
    (isName_cloneName remote) hfree

end

/-! ## 3. Removing the clone -/

section
variable {G : Type} {path : Path} {world : World G}

theorem removeClone_of_leadsToDir (h : world.files.LeadsToDir world.cwd path) :
    (removeClone path world).files = world.files.removeAt (path.place world.cwd) := by
  unfold removeClone
  rw [FileTree.removeDir_of_leadsToDir h]
  exact (World.sameGround_debug ..).files

theorem removeClone_of_not_leadsToDir (h : ¬ world.files.LeadsToDir world.cwd path) :
    (removeClone path world).files = world.files := by
  unfold removeClone
  split
  · next hremoved => exact absurd (FileTree.removeDir_eq_ok hremoved).1 h
  · rfl
  · rfl

end

/-! ## 4. A member of the scratch directory -/

/-- A name that stands for a member of a directory and nothing else, as the directories of bare
repositories are called. -/
structure IsMemberName (name : String) : Prop where
  ne : name ≠ ""
  ending : ∃ front, name = front ++ ".git"
  slash : '/' ∉ name.toList
  backslash : '\\' ∉ name.toList
  colon : ':' ∉ name.toList
  here : name ≠ "."
  up : name ≠ ".."

/-- A path names a member of a directory: the bytes of the directory are still in front, and the name is
the last component behind those of the directory. -/
structure IsMember (dir : Path) (name : Bytes) (path : Path) : Prop where
  front : dir.bytes <+: path.bytes
  absolute : path.isAbsolute = dir.isAbsolute
  last : path.fileName? = some name
  parent : ∃ parent, path.parent? = some parent ∧ parent.components = dir.components
  place (cwd : Location) : path.place cwd = dir.place cwd ++ [name]

theorem isMemberName_cloneName (remote : String) : IsMemberName (cloneName remote) := by
  obtain ⟨hempty, hhere, hup⟩ := isName_cloneName remote
  have hne {other : String} (h : Bytes.ofString (cloneName remote) ≠ other) :
      cloneName remote ≠ other := fun heq => h (congrArg _ heq)
  have hseparator (c : Char) (h : c ∈ (cloneName remote).toList) :
      CloneName.isSeparator c = false := by
    rw [cloneName, String.toList_ofList] at h
    exact CloneName.isPart_ofChars _ c h
  refine
    { ne := hne hempty
      ending := ?_
      slash := fun h => absurd (hseparator _ h) (by decide)
      backslash := fun h => absurd (hseparator _ h) (by decide)
      colon := fun h => absurd (hseparator _ h) (by decide)
      here := hne hhere
      up := hne hup }
  obtain ⟨front, hfront⟩ := CloneName.ending_suffix_withEnding
    (if (CloneName.base remote.toList).isEmpty then "remote".toList else CloneName.base remote.toList)
  refine ⟨String.ofList front, ?_⟩
  rw [cloneName, CloneName.ofChars, ← hfront, String.ofList_append]
  rfl

theorem isMember_clonePath (remote : String) (scratch : Path) :
    IsMember scratch (cloneName remote) (clonePath remote scratch) := by
  have hname : Location.IsPlain (cloneName remote) :=
    ⟨isName_cloneName remote, slash_not_mem_cloneName remote⟩
  have hrelative := Path.isAbsolute_of_not_mem hname.2
  have hfront : scratch.bytes <+: (clonePath remote scratch).bytes := by
    unfold clonePath Path.join
    rw [if_neg (by simp [hrelative])]
    split <;> simp
  refine
    { front := hfront
      absolute := ?_
      last := Path.fileName?_join_name hname scratch
      parent := ⟨_, Path.parent?_join_name hname scratch, Path.components_trimmed scratch⟩
      place := place_clonePath remote scratch }
  by_cases hempty : scratch.bytes = []
  · have hbytes : (clonePath remote scratch).bytes = cloneName remote := by
      simp [clonePath, Path.join, hrelative, hempty]
    have hscratch : scratch.isAbsolute = false := by simp [Path.isAbsolute, hempty]
    rw [hscratch, ← hrelative, Path.isAbsolute, hbytes, Path.isAbsolute]
  · obtain ⟨behind, hbehind⟩ := hfront
    unfold Path.isAbsolute
    rw [← hbehind, List.head?_append_of_ne_nil _ hempty]

/-- Whatever the address of a remote repository is, its clone is named as a member of the scratch
directory, and when the clone is removed, then this member goes or nothing does. -/
theorem clone_is_member_of_scratch (remote : String) :
    IsMemberName (cloneName remote)
      ∧ ∀ scratch, IsMember scratch (cloneName remote) (clonePath remote scratch)
        ∧ ∀ (G : Type) (world : World G),
            (removeClone (clonePath remote scratch) world).files = world.files
              ∨ (removeClone (clonePath remote scratch) world).files =
                  world.files.removeAt
                    (scratch.place world.cwd ++ [Bytes.ofString (cloneName remote)]) := by
  refine ⟨isMemberName_cloneName remote, fun scratch => ?_⟩
  refine ⟨isMember_clonePath remote scratch, fun G world => ?_⟩
  by_cases hdir : world.files.LeadsToDir world.cwd (clonePath remote scratch)
  · right
    rw [removeClone_of_leadsToDir hdir, place_clonePath]
  · left
    exact removeClone_of_not_leadsToDir hdir

end PublishOnce
