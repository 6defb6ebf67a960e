/-
PublishOnce.Proofs.Settings.Search — which file the search for a configuration file
finds.

A relative name is looked for in a directory, then in its parent, and so on to the
top. `findFile_nearest` says what this comes to without following it: the answer is
at the first step of the way up at which there is a regular file (`ComesTo`), there is
none exactly if there is no such step, and only the candidates up to the answer have a say
in it. Everything else may change, or be asked from another place, and the answer stays.
The two lemmas that carry it are about one step (`findFile_of_isRegular`,
`findFile_of_not_isRegular`); the rest is induction along the way up.

An absolute name is another matter. There is one candidate, and it only has to exist.
So a directory is an answer when it is named absolutely, and is passed over when it
is met on the way up: `findFile_isRegular_iff` says that this is the one case in which
an answer is no file, and the one in which the two ways to name an entry differ.
-/
import PublishOnce.Proofs.FileTree.Climbing

namespace PublishOnce

/-! ## 1. Regular files -/

/-- A path leads to a regular file. -/
def FileTree.IsRegular (files : FileTree) (cwd : Location) (path : Path) : Prop :=
  ∃ place content, files.resolve cwd path = .ok place ∧ files.get? place = some (.file content)

namespace FileTree

variable {files : FileTree} {cwd : Location} {path : Path}

theorem isFile_iff : files.isFile cwd path = true ↔ files.IsRegular cwd path := by
  unfold isFile IsRegular
  rw [Option.isSome_iff_exists, exists_comm]
  simp only [readFile?_eq_some_iff]

instance : Decidable (files.IsRegular cwd path) := decidable_of_iff _ isFile_iff

/-- What exists is a regular file or a directory. -/
theorem pathExists_iff : files.pathExists cwd path = true ↔
    files.IsRegular cwd path ∨ files.isDir cwd path = true := by
  rw [← isFile_iff]
  unfold pathExists isDir isFile readFile?
  rcases files.entry? cwd path with _ | _ | _ <;> simp

theorem not_isRegular_of_isDir (h : files.isDir cwd path = true) : ¬ files.IsRegular cwd path := by
  rintro ⟨place, content, hresolve, hget⟩
  have hentry := entry?_eq_some_iff.mpr ⟨place, hresolve, hget⟩
  rw [isDir, hentry] at h
  simp at h

end FileTree

namespace Settings

variable {files : FileTree} {cwd : Location} {start name : Path}

/-! ## 2. One step of the search -/

/-- A file in the directory itself ends the search. -/
theorem findFile_of_isRegular (hname : name.isAbsolute = false)
    (h : files.IsRegular cwd (start.join name)) :
    findFile files cwd start name = some (start.join name) := by
  obtain ⟨above, habove⟩ : ∃ above, start.ancestors = start :: above := by
    rw [Path.ancestors]
    split
    · exact ⟨_, rfl⟩
    · exact ⟨_, rfl⟩
  rw [findFile, if_neg (by simp [hname]), candidates, habove, List.map_cons]
  exact List.find?_cons_of_pos (FileTree.isFile_iff.mpr h)

/-- Without one it goes on in the parent, or fails where there is none. -/
theorem findFile_of_not_isRegular (hname : name.isAbsolute = false)
    (h : ¬ files.IsRegular cwd (start.join name)) :
    findFile files cwd start name = start.parent?.bind fun up => findFile files cwd up name := by
  have hhere : ¬ files.isFile cwd (start.join name) = true := by rwa [FileTree.isFile_iff]
  cases hup : start.parent? with
  | none =>
    rw [findFile, if_neg (by simp [hname]), candidates, Path.ancestors_of_parent?_eq_none hup]
    simp [hhere]
  | some up =>
    rw [findFile, if_neg (by simp [hname]), candidates, Path.ancestors_of_parent?_eq_some hup,
      List.map_cons, List.find?_cons_of_neg hhere, Option.bind_some, findFile,
      if_neg (by simp [hname]), candidates]

/-! ## 3. The search -/

/-- The search comes to a directory on the way up: there is no regular file of the name nearer than
that. -/
structure ComesTo (files : FileTree) (cwd : Location) (start name : Path) (steps : Nat) (dir : Path) :
    Prop where
  climb : start.climb steps = some dir
  passed : ∀ fewer, fewer < steps → ∀ nearer, start.climb fewer = some nearer →
    ¬ files.IsRegular cwd (nearer.join name)

namespace ComesTo

variable {steps fewer : Nat} {up dir nearer : Path}

/-- The search has come to every directory that it has passed. -/
theorem of_lt (h : ComesTo files cwd start name steps dir) (hfewer : fewer < steps)
    (hnearer : start.climb fewer = some nearer) : ComesTo files cwd start name fewer nearer :=
  ⟨hnearer, fun least hleast => h.passed least (hleast.trans hfewer)⟩

/-- Behind the first step it is the search from the parent. -/
theorem of_succ (h : ComesTo files cwd start name (steps + 1) dir) (hup : start.parent? = some up) :
    ComesTo files cwd up name steps dir := by
  refine ⟨(Path.climb_succ_of_parent?_eq_some hup steps).symm.trans h.climb, ?_⟩
  intro fewer hfewer nearer hnearer
  refine h.passed (fewer + 1) (Nat.succ_lt_succ hfewer) nearer ?_
  rw [Path.climb_succ_of_parent?_eq_some hup, hnearer]

/-- Where it comes to a file, it ends. -/
theorem findFile_eq_some (hname : name.isAbsolute = false)
    (h : ComesTo files cwd start name steps dir) (hfile : files.IsRegular cwd (dir.join name)) :
    findFile files cwd start name = some (dir.join name) := by
  induction steps generalizing start with
  | zero =>
    obtain rfl := Option.some.inj h.climb
    exact findFile_of_isRegular hname hfile
  | succ steps ih =>
    cases hup : start.parent? with
    | none =>
      have hclimb := h.climb
      rw [Path.climb_succ_of_parent?_eq_none hup] at hclimb
      cases hclimb
    | some up =>
      have hhere := h.passed 0 (Nat.succ_pos steps) start (Path.climb_zero start)
      rw [findFile_of_not_isRegular hname hhere, hup, Option.bind_some]
      exact ih (h.of_succ hup)

end ComesTo

/-- If there is a file on the way up, then there is a nearest one. -/
theorem exists_comesTo {steps : Nat} {dir : Path} (hclimb : start.climb steps = some dir)
    (hfile : files.IsRegular cwd (dir.join name)) :
    ∃ steps dir, ComesTo files cwd start name steps dir ∧ files.IsRegular cwd (dir.join name) := by
  induction steps using Nat.strong_induction_on generalizing dir with
  | _ steps ih =>
    by_cases hpassed : ∀ fewer, fewer < steps → ∀ nearer, start.climb fewer = some nearer →
        ¬ files.IsRegular cwd (nearer.join name)
    · exact ⟨steps, dir, ⟨hclimb, hpassed⟩, hfile⟩
    · push Not at hpassed
      obtain ⟨fewer, hfewer, nearer, hnearer, hnearerFile⟩ := hpassed
      exact ih fewer hfewer hnearer hnearerFile

theorem findFile_eq_none (hname : name.isAbsolute = false)
    (h : ∀ steps dir, start.climb steps = some dir → ¬ files.IsRegular cwd (dir.join name)) :
    findFile files cwd start name = none := by
  induction start using Path.ancestors.induct with
  | case1 start hnone =>
    rw [findFile_of_not_isRegular hname (h 0 start rfl), hnone, Option.bind_none]
  | case2 start up hup ih =>
    rw [findFile_of_not_isRegular hname (h 0 start rfl), hup, Option.bind_some]
    refine ih fun steps dir hdir => h (steps + 1) dir ?_
    rw [Path.climb_succ_of_parent?_eq_some hup, hdir]

theorem findFile_eq_some_iff (hname : name.isAbsolute = false) {found : Path} :
    findFile files cwd start name = some found ↔
      ∃ steps dir, ComesTo files cwd start name steps dir ∧ files.IsRegular cwd (dir.join name)
        ∧ found = dir.join name := by
  constructor
  · intro hfound
    by_contra hnowhere
    have hnone : findFile files cwd start name = none := by
      refine findFile_eq_none hname fun steps dir hdir hfile => hnowhere ?_
      obtain ⟨steps, dir, hcomes, hfile⟩ := exists_comesTo hdir hfile
      have hfirst := hcomes.findFile_eq_some hname hfile
      exact ⟨steps, dir, hcomes, hfile, Option.some.inj (hfound.symm.trans hfirst)⟩
    rw [hnone] at hfound
    cases hfound
  · rintro ⟨steps, dir, hcomes, hfile, rfl⟩
    exact hcomes.findFile_eq_some hname hfile

theorem findFile_eq_none_iff (hname : name.isAbsolute = false) :
    findFile files cwd start name = none ↔
      ∀ steps dir, start.climb steps = some dir → ¬ files.IsRegular cwd (dir.join name) := by
  refine ⟨?_, findFile_eq_none hname⟩
  intro hnone steps dir hdir hfile
  obtain ⟨steps, dir, hcomes, hfile⟩ := exists_comesTo hdir hfile
  rw [hcomes.findFile_eq_some hname hfile] at hnone
  cases hnone

/-- Only the candidates that the search comes to have a say in the answer. -/
theorem findFile_congr (hname : name.isAbsolute = false) {other : FileTree} {there : Location}
    (h : ∀ steps dir, ComesTo files cwd start name steps dir →
      (other.IsRegular there (dir.join name) ↔ files.IsRegular cwd (dir.join name))) :
    findFile other there start name = findFile files cwd start name := by
  cases hfound : findFile files cwd start name with
  | none =>
    rw [findFile_eq_none_iff hname] at hfound ⊢
    intro steps dir hdir
    rw [h steps dir ⟨hdir, fun fewer _ => hfound fewer⟩]
    exact hfound steps dir hdir
  | some found =>
    obtain ⟨steps, dir, hcomes, hfile, rfl⟩ := (findFile_eq_some_iff hname).mp hfound
    refine ComesTo.findFile_eq_some hname ⟨hcomes.climb, ?_⟩ ((h steps dir hcomes).mpr hfile)
    intro fewer hfewer nearer hnearer
    rw [h fewer nearer (hcomes.of_lt hfewer hnearer)]
    exact hcomes.passed fewer hfewer nearer hnearer

/-- The search for a relative name finds the nearest regular file. The way up is as long as the start
has components; the answer is the candidate at the first step with a regular file, and there is none
only if no step has one; a directory of the name is passed over; the same files at the candidates up to
the answer make the same answer. -/
theorem findFile_nearest (hname : name.isAbsolute = false) (files : FileTree) (cwd : Location)
    (start : Path) :
    (∀ steps, start.climb steps = none ↔ start.depth < steps)
      ∧ (∀ found, findFile files cwd start name = some found ↔
          ∃ steps dir, ComesTo files cwd start name steps dir ∧ files.IsRegular cwd (dir.join name)
            ∧ found = dir.join name)
      ∧ (findFile files cwd start name = none ↔
          ∀ steps dir, start.climb steps = some dir → ¬ files.IsRegular cwd (dir.join name))
      ∧ (files.isDir cwd (start.join name) = true →
          findFile files cwd start name = start.parent?.bind fun up => findFile files cwd up name)
      ∧ ∀ other there,
          (∀ steps dir, ComesTo files cwd start name steps dir →
            (other.IsRegular there (dir.join name) ↔ files.IsRegular cwd (dir.join name))) →
          findFile other there start name = findFile files cwd start name := by
  refine ⟨?_, ?_, findFile_eq_none_iff hname, ?_, ?_⟩
  · intro steps
    exact Path.climb_eq_none_iff
  · intro found
    exact findFile_eq_some_iff hname
  · intro hdir
    exact findFile_of_not_isRegular hname (FileTree.not_isRegular_of_isDir hdir)
  · intro other there h
    exact findFile_congr hname h

/-- A file two steps up, and a directory that is called like it one step up. -/
def steppedTree : FileTree :=
  ⟨[(["w"], .dir), (["w", "deploy.toml"], .file []), (["w", "a"], .dir),
    (["w", "a", "deploy.toml"], .dir), (["w", "a", "b"], .dir)]⟩

/-- The same with a file further up, and without the directory. -/
def alteredTree : FileTree :=
  ⟨[(["deploy.toml"], .file []), (["w"], .dir), (["w", "deploy.toml"], .file [1]), (["w", "a"], .dir),
    (["w", "a", "b"], .dir)]⟩

/-- The general statement from a path with separators and dots to spare. -/
theorem findFile_nearest_stepped :
    (Path.ofText "deploy.toml").isAbsolute = false
      ∧ findFile steppedTree [] "/w/a//b/./" "deploy.toml" = some "/w/deploy.toml"
      ∧ findFile alteredTree ["w"] "/w/a//b/./" "deploy.toml" = some "/w/deploy.toml" := by
  have hname : (Path.ofText "deploy.toml").isAbsolute = false := by decide +kernel
  obtain ⟨-, hsome, -, -, hcongr⟩ := findFile_nearest hname steppedTree [] "/w/a//b/./"
  have hfile : steppedTree.IsRegular [] ((Path.ofText "/w").join "deploy.toml") := by decide +kernel
  have hcomes : ComesTo steppedTree [] "/w/a//b/./" "deploy.toml" 2 "/w" := by
    refine ⟨by decide +kernel, ?_⟩
    rintro (_ | _ | fewer) hfewer nearer hnearer
    · obtain rfl := Option.some.inj hnearer
      decide +kernel
    · have hup : (Path.ofText "/w/a//b/./").climb 1 = some "/w/a" := by decide +kernel
      obtain rfl := Option.some.inj (hup.symm.trans hnearer)
      decide +kernel
    · omega
  have hfound : findFile steppedTree [] "/w/a//b/./" "deploy.toml" = some "/w/deploy.toml" :=
    (hsome _).mpr ⟨2, "/w", hcomes, hfile, by decide +kernel⟩
  refine ⟨hname, hfound, (hcongr alteredTree ["w"] ?_).trans hfound⟩
  rintro (_ | _ | _ | steps) dir hdir
  · obtain rfl := Option.some.inj hdir.climb
    decide +kernel
  · have hup : (Path.ofText "/w/a//b/./").climb 1 = some "/w/a" := by decide +kernel
    obtain rfl := Option.some.inj (hup.symm.trans hdir.climb)
    decide +kernel
  · obtain rfl := Option.some.inj (hcomes.climb.symm.trans hdir.climb)
    decide +kernel
  · exact absurd hfile (hdir.passed 2 (by omega) _ hcomes.climb)

/-! ## 4. Absolute names -/

/-- An absolute name is its own answer, if there is anything. -/
theorem findFile_eq_some_iff_of_isAbsolute (hname : name.isAbsolute = true) {found : Path} :
    findFile files cwd start name = some found ↔
      found = name ∧ (files.IsRegular cwd name ∨ files.isDir cwd name = true) := by
  rw [findFile, if_pos hname, ← FileTree.pathExists_iff]
  cases files.pathExists cwd name <;> simp [eq_comm]

theorem isRegular_of_findFile (hname : name.isAbsolute = false) {found : Path}
    (h : findFile files cwd start name = some found) : files.IsRegular cwd found := by
  obtain ⟨steps, dir, -, hfile, rfl⟩ := (findFile_eq_some_iff hname).mp h
  exact hfile

/-- Where the search comes, an entry is found exactly if it is a regular file. -/
theorem ComesTo.findFile_join_iff {steps : Nat} {dir : Path} (hname : name.isAbsolute = false)
    (h : ComesTo files cwd start name steps dir) :
    findFile files cwd start name = some (dir.join name) ↔ files.IsRegular cwd (dir.join name) :=
  ⟨isRegular_of_findFile hname, h.findFile_eq_some hname⟩

/-- An answer is a regular file unless the name is absolute and names a directory. Named absolutely and
met on the way up, an entry is accepted alike unless it is a directory. -/
theorem findFile_isRegular_iff (files : FileTree) (cwd : Location) (start name : Path) :
    ((∀ found, findFile files cwd start name = some found → files.IsRegular cwd found) ↔
        ¬ (name.isAbsolute = true ∧ files.isDir cwd name = true))
      ∧ ∀ (below dir relative : Path) (steps : Nat),
          dir.isAbsolute = true → relative.isAbsolute = false →
            ComesTo files cwd below relative steps dir →
              ((findFile files cwd start (dir.join relative) = some (dir.join relative) ↔
                  findFile files cwd below relative = some (dir.join relative)) ↔
                ¬ files.isDir cwd (dir.join relative) = true) := by
  constructor
  · constructor
    · rintro hregular ⟨hname, hdir⟩
      have hfound : findFile files cwd start name = some name :=
        (findFile_eq_some_iff_of_isAbsolute hname).mpr ⟨rfl, .inr hdir⟩
      exact FileTree.not_isRegular_of_isDir hdir (hregular name hfound)
    · intro hcase found hfound
      cases hname : name.isAbsolute with
      | false => exact isRegular_of_findFile hname hfound
      | true =>
        obtain ⟨rfl, hfile | hdir⟩ := (findFile_eq_some_iff_of_isAbsolute hname).mp hfound
        · exact hfile
        · exact absurd ⟨hname, hdir⟩ hcase
  · intro below dir relative steps hdir hrelative hcomes
    rw [findFile_eq_some_iff_of_isAbsolute (Path.isAbsolute_join hdir relative),
      hcomes.findFile_join_iff hrelative]
    constructor
    · intro halike hentry
      exact FileTree.not_isRegular_of_isDir hentry (halike.mp ⟨rfl, .inr hentry⟩)
    · intro hentry
      simp [hentry]

/-- A directory that is called like a configuration file. -/
def directoryTree : FileTree := ⟨[(["w"], .dir), (["w", "deploy.toml"], .dir)]⟩

/-- Named absolutely it is found, and no file. Looked for from the directory that holds it, it is not
found. -/
theorem findFile_of_directory :
    findFile directoryTree ["w"] "/w" "/w/deploy.toml" = some "/w/deploy.toml"
      ∧ ¬ directoryTree.IsRegular ["w"] "/w/deploy.toml"
      ∧ findFile directoryTree ["w"] "/w" "deploy.toml" = none := by
  decide +kernel

end Settings

end PublishOnce
