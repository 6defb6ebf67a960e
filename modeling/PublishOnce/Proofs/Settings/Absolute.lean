/-
PublishOnce.Proofs.Settings.Absolute — paths are made absolute once.

A path is made absolute against the directory that it was written in, and there are
two such directories: that of the configuration file and the working directory. It
would be wrong if a path that has been made absolute against one of them could change
when it meets the other. What comes of it is absolute (`Path.isAbsolute_resolveIn`), and
an absolute path has neither a tilde in front nor a base to be put behind. The home
directory does not matter to this. It may be relative or start with a tilde itself, since
the tilde is replaced before the base is looked at.

There is one thing left that changes such a path, and it is what it was read for. A path is
taken as it is shown, and what in it is no text is shown as something else
(`resolveIn_of_isAbsolute`). So a path stays as it is exactly if it is text. A path that was
made absolute is text unless it stands behind a directory that is none
(`Path.isText_resolveIn_iff`), as this directory is the only part that was never read.

Hence the order of the two phases does not matter either, as long as the paths of the
command line are text when they are put over those of the file: whether these are made
absolute before or after that, the same settings come out, and they stay the same if it is
done again (`resolveIn_settles`). That the directories are absolute is needed. Below a
relative one a path stays relative, and would get a second base in the second phase.
-/
import PublishOnce.Proofs.Settings.Start

namespace PublishOnce

/-! ## 1. Paths that are text -/

namespace Path

variable {root path : Path} {home : Option String}

def IsText (path : Path) : Prop := path.bytes.IsText

instance (path : Path) : Decidable path.IsText := inferInstanceAs (Decidable path.bytes.IsText)

theorem isText_ofText (text : String) : (ofText text).IsText := Bytes.isText_ofString text

theorem ofText_shown_eq_iff : .ofText path.shown = path ↔ path.IsText := by
  rw [Path.ext_iff]
  exact Bytes.isText_iff.symm

theorem isText_expandHome (home : Option String) (path : Path) : (path.expandHome home).IsText := by
  unfold expandHome
  split <;> exact isText_ofText _

/-- A text behind a directory is text if the directory is. -/
theorem isText_join_iff (hpath : path.IsText) :
    (root.join path).IsText ↔ path.isAbsolute = true ∨ root.IsText := by
  have hslash : slash.toNat < 0x80 := by decide
  unfold join
  by_cases habsolute : path.isAbsolute = true
  · simp [habsolute, hpath]
  rw [if_neg habsolute]
  simp only [habsolute, Bool.false_eq_true, false_or]
  split
  · next hend =>
    rw [Bool.or_eq_true, List.isEmpty_iff, decide_eq_true_iff] at hend
    rcases hend with hempty | hlast
    · simp only [IsText, hempty, List.nil_append]
      exact iff_of_true hpath (Bytes.isText_ofString "")
    · -- the separator at the end of the directory is the one that stands between the two
      obtain ⟨front, hfront⟩ := List.getLast?_eq_some_iff.mp hlast
      simp only [IsText, hfront, List.append_assoc, List.singleton_append]
      rw [Bytes.isText_append_iff hslash, Bytes.isText_append_iff hslash]
      exact ⟨fun h => ⟨h.1, Bytes.isText_ofString ""⟩, fun h => ⟨h.1, hpath⟩⟩
  · simp only [IsText]
    rw [Bytes.isText_append_iff hslash]
    exact and_iff_left hpath

/-- What comes of a path is text, but for the directory that it may stand behind. -/
theorem isText_resolveIn_iff :
    (resolveIn home root path).IsText ↔ (path.expandHome home).isAbsolute = true ∨ root.IsText :=
  isText_join_iff (isText_expandHome home path)

theorem isText_resolveIn (hroot : root.IsText) (home : Option String) (path : Path) :
    (resolveIn home root path).IsText :=
  isText_resolveIn_iff.mpr (.inr hroot)

end Path

namespace Settings

variable {root cwd : Path} {settings : Settings}

/-- A path that has been made absolute stays as it is if it is text. -/
theorem resolveIn_eq_self_iff {path : Path} (h : path.isAbsolute = true) (home : Option String)
    (root : Path) : Path.resolveIn home root path = path ↔ path.IsText := by
  rw [resolveIn_of_isAbsolute h, Path.ofText_shown_eq_iff]

/-! ## 2. The paths of settings -/

section
variable {P : Path → Prop} {home : Option String}

/-- All paths have a property. -/
structure AllPaths (P : Path → Prop) (settings : Settings) : Prop where
  root : P settings.source.root
  dir : P settings.target.dir
  scratch : P settings.target.scratch

theorem allPaths_resolveIn (h : ∀ path, P (Path.resolveIn home root path)) (settings : Settings) :
    (settings.resolveIn home root).AllPaths P where
  root := h _
  dir := h _
  scratch := h _

/-- A path from the command line that is put over another one has a property if both have it. -/
theorem of_getD (h : ∀ path, P (Path.resolveIn home cwd path)) (override : Option Path) {own : Path}
    (hown : P own) : P ((override.map (Path.resolveIn home cwd)).getD own) := by
  cases override with
  | none => exact hown
  | some path => exact h path

theorem AllPaths.override (hsettings : settings.AllPaths P)
    (h : ∀ path, P (Path.resolveIn home cwd path)) (overrides : Overrides) :
    (settings.override overrides home cwd).AllPaths P where
  root := of_getD h overrides.source hsettings.root
  dir := of_getD h overrides.dir hsettings.dir
  scratch := of_getD h overrides.scratch hsettings.scratch

end

/-- All paths are absolute. -/
abbrev IsAbsolute (settings : Settings) : Prop := settings.AllPaths (·.isAbsolute = true)

/-- All paths are text. -/
abbrev PathsAreText (settings : Settings) : Prop := settings.AllPaths Path.IsText

/-- Such settings are the same whatever their paths are made relative to, if these are text. -/
theorem IsAbsolute.resolveIn_eq_iff (h : settings.IsAbsolute) (home : Option String) (root : Path) :
    settings.resolveIn home root = settings ↔ settings.PathsAreText := by
  have hpaths : settings.resolveIn home root = settings ↔
      Path.resolveIn home root settings.source.root = settings.source.root
        ∧ Path.resolveIn home root settings.target.dir = settings.target.dir
        ∧ Path.resolveIn home root settings.target.scratch = settings.target.scratch := by
    obtain ⟨⟨own⟩, ⟨remote, branch, dir, scratch⟩, commit⟩ := settings
    simp [resolveIn]
  rw [hpaths, resolveIn_eq_self_iff h.root, resolveIn_eq_self_iff h.dir,
    resolveIn_eq_self_iff h.scratch]
  exact ⟨fun ⟨root, dir, scratch⟩ => ⟨root, dir, scratch⟩, fun h => ⟨h.root, h.dir, h.scratch⟩⟩

/-! ## 3. The two phases -/

/-- The paths of the command line are text once they have been made absolute. -/
structure OverridesAreText (overrides : Overrides) (home : Option String) (cwd : Path) : Prop where
  source : ∀ path ∈ overrides.source, (Path.resolveIn home cwd path).IsText
  dir : ∀ path ∈ overrides.dir, (Path.resolveIn home cwd path).IsText
  scratch : ∀ path ∈ overrides.scratch, (Path.resolveIn home cwd path).IsText

theorem overridesAreText (hcwd : cwd.IsText) (overrides : Overrides) (home : Option String) :
    OverridesAreText overrides home cwd where
  source _ _ := Path.isText_resolveIn hcwd ..
  dir _ _ := Path.isText_resolveIn hcwd ..
  scratch _ _ := Path.isText_resolveIn hcwd ..

/-- What is put over a path may be made absolute before it is put there, if it is text then. -/
theorem getD_resolveIn_iff (hcwd : cwd.isAbsolute = true) (home : Option String) (root : Path)
    (override : Option Path) (own : Path) :
    (override.map (Path.resolveIn home cwd)).getD (Path.resolveIn home root own) =
        Path.resolveIn home root ((override.map (Path.resolveIn home cwd)).getD own) ↔
      ∀ path ∈ override, (Path.resolveIn home cwd path).IsText := by
  cases override with
  | none => simp
  | some path =>
    have habsolute := Path.isAbsolute_resolveIn hcwd home path
    rw [Option.map_some, Option.getD_some, Option.getD_some, eq_comm,
      resolveIn_eq_self_iff habsolute]
    simp

/-- The paths of the file and those of the command line are made absolute in either order, if the
latter are text then. -/
theorem override_resolveIn_iff (hcwd : cwd.isAbsolute = true) (settings : Settings)
    (overrides : Overrides) (home : Option String) (root : Path) :
    (settings.resolveIn home root).override overrides home cwd =
        (settings.override overrides home cwd).resolveIn home root ↔
      OverridesAreText overrides home cwd := by
  unfold override resolveIn
  simp only [Settings.mk.injEq, Source.mk.injEq, Target.mk.injEq, getD_resolveIn_iff hcwd, true_and,
    and_true]
  exact ⟨fun ⟨source, dir, scratch⟩ => ⟨source, dir, scratch⟩, fun h => ⟨h.source, h.dir, h.scratch⟩⟩

/-- Making paths absolute settles them. What comes of a path is absolute, whatever the home directory
is. If this is done again, from any other directory and for any other home, what is shown of it
stays, which is all of it unless it stands behind a directory that is no text. So settings stay the
same exactly if their paths are text, with the command line taken into account or without; and it makes
no difference whether it is taken into account before or after exactly if what it says is text when it
has been made absolute. All of these are text if the two directories are. -/
theorem resolveIn_settles (hroot : root.isAbsolute = true) (hcwd : cwd.isAbsolute = true)
    (home : Option String) :
    (∀ path, (Path.resolveIn home root path).isAbsolute = true
        ∧ ∀ otherHome other,
            Path.resolveIn otherHome other (Path.resolveIn home root path) =
                .ofText (Path.resolveIn home root path).shown
              ∧ (Path.resolveIn otherHome other (Path.resolveIn home root path) =
                    Path.resolveIn home root path ↔
                  (path.expandHome home).isAbsolute = true ∨ root.IsText))
      ∧ ∀ (settings : Settings) (overrides : Overrides),
          (∀ otherHome other, (settings.resolveIn home root).resolveIn otherHome other =
              settings.resolveIn home root ↔ (settings.resolveIn home root).PathsAreText)
            ∧ (∀ otherHome other,
                ((settings.resolveIn home root).override overrides home cwd).resolveIn otherHome other =
                    (settings.resolveIn home root).override overrides home cwd ↔
                  ((settings.resolveIn home root).override overrides home cwd).PathsAreText)
            ∧ ((settings.resolveIn home root).override overrides home cwd =
                  (settings.override overrides home cwd).resolveIn home root ↔
                OverridesAreText overrides home cwd)
            ∧ (root.IsText → (settings.resolveIn home root).PathsAreText)
            ∧ (cwd.IsText → OverridesAreText overrides home cwd)
            ∧ (root.IsText → cwd.IsText →
                ((settings.resolveIn home root).override overrides home cwd).PathsAreText) := by
  constructor
  · intro path
    have habsolute := Path.isAbsolute_resolveIn hroot home path
    refine ⟨habsolute, ?_⟩
    intro otherHome other
    refine ⟨resolveIn_of_isAbsolute habsolute otherHome other, ?_⟩
    rw [resolveIn_eq_self_iff habsolute, Path.isText_resolveIn_iff]
  · intro settings overrides
    have habsolute : (settings.resolveIn home root).IsAbsolute :=
      allPaths_resolveIn (Path.isAbsolute_resolveIn hroot home) settings
    have hoverridden : ((settings.resolveIn home root).override overrides home cwd).IsAbsolute :=
      habsolute.override (Path.isAbsolute_resolveIn hcwd home) overrides
    have htext (hroot : root.IsText) : (settings.resolveIn home root).PathsAreText :=
      allPaths_resolveIn (Path.isText_resolveIn hroot home) settings
    refine ⟨habsolute.resolveIn_eq_iff, hoverridden.resolveIn_eq_iff,
      override_resolveIn_iff hcwd settings overrides home root, htext,
      fun hcwd => overridesAreText hcwd overrides home, fun hroot hcwd => ?_⟩
    exact (htext hroot).override (Path.isText_resolveIn hcwd home) overrides

/-- Paths with a tilde in each place where there is one path. -/
def tildeSettings : Settings :=
  { source := { root := "~" }, target := { dir := "~/out", scratch := "~me" } }

/-- The general statement for a home directory that is itself written with a tilde, and with a trailing
separator on one of the two directories. -/
theorem resolveIn_settles_tilde :
    (Path.ofText "/w/").isAbsolute = true ∧ (Path.ofText "/c").isAbsolute = true
      ∧ Path.resolveIn (some "~h") "/w/" "~/out" = "/w/~h/out"
      ∧ Path.resolveIn (some "/other") "/x" "/w/~h/out" = "/w/~h/out"
      ∧ (tildeSettings.override { scratch := some "~/tmp" } (some "~h") "/c").resolveIn
            (some "~h") "/w/" =
          { source := { root := "/w/~h" }
            target := { dir := "/w/~h/out", scratch := "/c/~h/tmp" } } := by
  have hroot : (Path.ofText "/w/").isAbsolute = true := by decide +kernel
  have hcwd : (Path.ofText "/c").isAbsolute = true := by decide +kernel
  obtain ⟨hpath, hsettings⟩ := resolveIn_settles hroot hcwd (some "~h")
  have hout : Path.resolveIn (some "~h") "/w/" "~/out" = "/w/~h/out" := by decide +kernel
  refine ⟨hroot, hcwd, hout, ?_, ?_⟩
  · have hagain := ((hpath "~/out").2 (some "/other") "/x").2.mpr (.inr (Path.isText_ofText _))
    rwa [hout] at hagain
  · obtain ⟨-, -, hphases, -, htext, -⟩ := hsettings tildeSettings { scratch := some "~/tmp" }
    rw [← hphases.mpr (htext (Path.isText_ofText _))]
    decide +kernel

/-- A directory whose name is a single byte that is no text. -/
def unreadable : Path := ⟨[Path.slash, 0xFF]⟩

/-- Below such a directory a path does not settle: made absolute a second time it is another one. And a
path of the command line that was written there comes out otherwise if the paths of the file
are made absolute behind it. -/
theorem resolveIn_unsettled :
    unreadable.isAbsolute = true ∧ (Path.ofText "/w").isAbsolute = true
      ∧ Path.resolveIn (some "/home/me") unreadable "a" = ⟨[Path.slash, 0xFF, Path.slash, 0x61]⟩
      ∧ Path.resolveIn (some "/home/me") "/w" ⟨[Path.slash, 0xFF, Path.slash, 0x61]⟩ = "/\uFFFD/a"
      ∧ ¬ (∀ root : Path, root.isAbsolute = true → ∀ path other : Path,
          Path.resolveIn (some "/home/me") other (Path.resolveIn (some "/home/me") root path) =
            Path.resolveIn (some "/home/me") root path)
      ∧ (tildeSettings.resolveIn (some "/home/me") "/w").override { dir := some "a" } (some "/home/me")
            unreadable ≠
          (tildeSettings.override { dir := some "a" } (some "/home/me") unreadable).resolveIn
            (some "/home/me") "/w" := by
  have hroot : unreadable.isAbsolute = true := by decide +kernel
  refine ⟨hroot, by decide +kernel, by decide +kernel, by decide +kernel, ?_, by decide +kernel⟩
  intro hsettles
  exact absurd (hsettles unreadable hroot "a" "/w") (by decide +kernel)

end Settings

end PublishOnce
