/-
PublishOnce.Proofs.Settings.Precedence — which source a field is taken from, and
what its paths are relative to.

Five fields can be said on the command line, and all eight in the file. What
each of them comes to is written down field by field (`Chosen`): the command
line, or else the file, or else the default, a path from the command line below
the working directory and any other one below the directory that holds the file.
`load_precedence` says that loading comes to these settings and to nothing else,
and that only they are checked. A value that is overridden is never looked at.

The directory of the file is its parent, as a text. That this is really the
directory that holds it takes a file and an absolute path
(`Path.resolve_parent?`); without the first the path could end in `..`, without
the second there might be no directory in the text.
-/
import PublishOnce.Proofs.FileTree.Parents
import PublishOnce.Proofs.Settings.Load
import PublishOnce.Proofs.Settings.Schema

namespace PublishOnce.Settings

variable {G : Type}

/-! ## 1. Where a configuration file is -/

/-- A configuration file is named by an absolute path if the working directory is. -/
theorem isAbsolute_of_located {world : World G} {cwd : Path} {asked : Option Path} {path : Path}
    (hcwd : cwd.isAbsolute = true) (h : located world cwd asked = .ok (some path)) :
    path.isAbsolute = true := by
  unfold located at h
  split at h
  · split at h
    · cases h
      exact Path.isAbsolute_resolveIn hcwd ..
    · cases h
  · have hfound := Except.ok.inj h
    have hname : (Path.mk fileName).isAbsolute = false := by decide +kernel
    rw [findFile, if_neg (by simp [hname])] at hfound
    obtain ⟨dir, hdir, rfl⟩ := List.mem_map.mp (List.mem_of_find?_eq_some hfound)
    exact Path.isAbsolute_join (Path.isAbsolute_of_mem_ancestors hcwd hdir) _

theorem isAbsolute_baseOf {world : World G} {cwd : Path} {asked file : Option Path}
    (hcwd : cwd.isAbsolute = true) (h : located world cwd asked = .ok file) :
    (baseOf cwd file).isAbsolute = true := by
  unfold baseOf
  cases file with
  | none => exact hcwd
  | some path =>
    cases hparent : path.parent? with
    | none => simpa [hparent] using hcwd
    | some dir =>
      have hdir := Path.isAbsolute_parent? (isAbsolute_of_located hcwd h) hparent
      simpa [hparent] using hdir

/-- The directory that paths in a source are relative to: the one that holds the file, and without a
file the working directory. -/
def IsBase (world : World G) (cwd : Path) (file : Option Path) (dir : Path) : Prop :=
  match file with
  | none => dir = cwd
  | some path => path.parent? = some dir
    ∧ world.files.resolve world.cwd dir = .ok (path.place world.cwd).dropLast
    ∧ world.files.isDirAt (path.place world.cwd).dropLast = true

theorem isBase_baseOf {world : World G} {cwd : Path} {asked file : Option Path} {own : Settings}
    (hcwd : cwd.isAbsolute = true) (hlocated : located world cwd asked = .ok file)
    (hown : ownSettings world file = .ok own) : IsBase world cwd file (baseOf cwd file) := by
  cases file with
  | none => rfl
  | some path =>
    obtain ⟨text, ignored, htext, -⟩ := ownSettings_eq_ok_iff.mp hown
    obtain ⟨content, hcontent, -⟩ := Option.bind_eq_some_iff.mp htext
    obtain ⟨dir, hparent, hresolve, hdir⟩ :=
      Path.resolve_parent? (isAbsolute_of_located hcwd hlocated) hcontent
    have hbase : baseOf cwd (some path) = dir := by
      unfold baseOf
      rw [Option.bind_some, hparent, Option.getD_some]
    exact hbase ▸ ⟨hparent, hresolve, hdir⟩

/-! ## 2. Field by field -/

/-- A path from the command line, or else one from a source, both made absolute. -/
def chosenPath (home : Option String) (cwd dir : Path) (override : Option Path) (own : Path) : Path :=
  match override with
  | some path => .resolveIn home cwd path
  | none => .resolveIn home dir own

theorem isAbsolute_chosenPath {home : Option String} {cwd dir own : Path} {override : Option Path}
    (hcwd : cwd.isAbsolute = true) (hdir : dir.isAbsolute = true) :
    (chosenPath home cwd dir override own).isAbsolute = true := by
  cases override with
  | none => exact Path.isAbsolute_resolveIn hdir ..
  | some path => exact Path.isAbsolute_resolveIn hcwd ..

/-- Where every field is taken from. The commit section is not up to the command line. -/
structure Chosen (home : Option String) (cwd base : Path) (overrides : Overrides)
    (own settings : Settings) : Prop where
  root : settings.source.root = chosenPath home cwd base overrides.source own.source.root
  remote : settings.target.remote = overrides.remote.getD own.target.remote
  branch : settings.target.branch = overrides.branch.getD own.target.branch
  dir : settings.target.dir = chosenPath home cwd base overrides.dir own.target.dir
  scratch : settings.target.scratch = chosenPath home cwd base overrides.scratch own.target.scratch
  commit : settings.commit = own.commit

theorem getD_map_resolveIn (home : Option String) (cwd dir : Path) (override : Option Path)
    (own : Path) :
    (override.map (Path.resolveIn home cwd)).getD (.resolveIn home dir own) =
      chosenPath home cwd dir override own := by
  cases override <;> rfl

theorem chosen_combine (own : Settings) (home : Option String) (cwd : Path) (file : Option Path)
    (overrides : Overrides) :
    Chosen home cwd (baseOf cwd file) overrides own (own.combine home cwd file overrides) where
  root := getD_map_resolveIn ..
  remote := rfl
  branch := rfl
  dir := getD_map_resolveIn ..
  scratch := getD_map_resolveIn ..
  commit := rfl

/-- Settings that are chosen so are fit if the texts that count are; no others are looked at. -/
theorem Chosen.diagnostics_eq_nil_iff {home : Option String} {cwd base : Path} {overrides : Overrides}
    {own settings : Settings} (h : Chosen home cwd base overrides own settings) :
    settings.diagnostics = [] ↔ IsVisible (overrides.remote.getD own.target.remote)
      ∧ IsWord (overrides.branch.getD own.target.branch) ∧ IsVisible own.commit.name := by
  rw [Settings.diagnostics_eq_nil_iff, h.remote, h.branch, h.commit]

theorem checked_eq_ok_iff {settings fit : Settings} :
    checked settings = .ok fit ↔ settings.diagnostics = [] ∧ settings = fit := by
  unfold checked
  split
  · next h => simp [h]
  · next h => simp [h]

/-! ## 3. Loading -/

/-- Loading comes to the settings that are chosen field by field, if they are fit, and otherwise it
says which rules they break. What a source says is the document in the file, or nothing but
defaults. -/
theorem load_precedence {world : World G} {cwd : Path} {asked file : Option Path} {own : Settings}
    (overrides : Overrides) (hcwd : cwd.isAbsolute = true)
    (hlocated : located world cwd asked = .ok file) (hown : ownSettings world file = .ok own) :
    ∃ base settings, IsBase world cwd file base
      ∧ Chosen world.home cwd base overrides own settings
      ∧ (load cwd asked overrides world).1 = checked settings
      ∧ ((load cwd asked overrides world).1 = .ok settings ↔
          IsVisible (overrides.remote.getD own.target.remote)
            ∧ IsWord (overrides.branch.getD own.target.branch) ∧ IsVisible own.commit.name)
      ∧ (file = none → own = {})
      ∧ ∀ path text entries, file = some path →
          readText world.files world.cwd path = some text →
            Toml.Document.parse? text = some entries → PartsAreTables entries → own = said entries := by
  have hchosen := chosen_combine own world.home cwd file overrides
  have hloaded : (load cwd asked overrides world).1 =
      checked (own.combine world.home cwd file overrides) := by
    obtain ⟨world', hload, -⟩ := load_apply cwd asked overrides world
    rw [hload, loaded, hlocated]
    simp only [hown]
  refine ⟨_, _, isBase_baseOf hcwd hlocated hown, hchosen, hloaded, ?_, ?_, ?_⟩
  · rw [hloaded, checked_eq_ok_iff, and_iff_left rfl]
    exact hchosen.diagnostics_eq_nil_iff
  · rintro rfl
    exact (Except.ok.inj hown).symm
  · rintro path text entries rfl htext hparse htables
    obtain ⟨text', ignored, htext', hread⟩ := ownSettings_eq_ok_iff.mp hown
    obtain rfl := Option.some.inj (htext.symm.trans htext')
    exact ((ofText_eq_ok_iff hparse htables).mp hread).2.1

/-- A document with a branch that is not fit and a directory next to it. -/
def overriddenDocument : String := "[target]\nbranch = \"a b\"\ndir = \"out\"\n"

/-- What it says. -/
def overriddenOwn : Settings := { target := { branch := "a b", dir := "out" } }

/-- A world with this document in a directory below the working directory. -/
def overriddenWorld : World Unit where
  files :=
    ⟨[(["w"], .dir), (["w", "conf"], .dir),
      (["w", "conf", "deploy.toml"], .file (Text.Utf8.encode overriddenDocument))]⟩
  cwd := ["w"]
  git := ()

/-- A branch that is fit instead, and a scratch directory. -/
def overriddenBy : Overrides := { branch := some "pages", scratch := some "tmp" }

/-- The general statement where the file is not fit on its own, and where paths have two bases. -/
theorem load_precedence_overridden :
    located overriddenWorld "/w" (some "conf/deploy.toml") = .ok (some "/w/conf/deploy.toml")
      ∧ ownSettings overriddenWorld (some "/w/conf/deploy.toml") = .ok overriddenOwn
      ∧ (load "/w" (some "conf/deploy.toml") overriddenBy overriddenWorld).1 =
          .ok { source := { root := "/w/conf/." }
                target := { branch := "pages", dir := "/w/conf/out", scratch := "/w/tmp" } } := by
  have hlocated : located overriddenWorld "/w" (some "conf/deploy.toml") =
      .ok (some "/w/conf/deploy.toml") := eq_ok_of_toOption (by decide +kernel)
  have hown : ownSettings overriddenWorld (some "/w/conf/deploy.toml") = .ok overriddenOwn :=
    eq_ok_of_toOption (by decide +kernel)
  obtain ⟨base, settings, hbase, hchosen, -, hload, -⟩ :=
    load_precedence overriddenBy (by decide +kernel) hlocated hown
  have hparent : (Path.ofText "/w/conf/deploy.toml").parent? = some "/w/conf" := by decide +kernel
  obtain rfl := Option.some.inj (hparent.symm.trans hbase.1)
  refine ⟨hlocated, hown, (hload.mpr (by decide +kernel)).trans (congrArg Except.ok ?_)⟩
  obtain ⟨⟨root⟩, ⟨remote, branch, dir, scratch⟩, commit⟩ := settings
  obtain rfl : root = _ := hchosen.root
  obtain rfl : remote = _ := hchosen.remote
  obtain rfl : branch = _ := hchosen.branch
  obtain rfl : dir = _ := hchosen.dir
  obtain rfl : scratch = _ := hchosen.scratch
  obtain rfl : commit = _ := hchosen.commit
  decide +kernel

end PublishOnce.Settings
