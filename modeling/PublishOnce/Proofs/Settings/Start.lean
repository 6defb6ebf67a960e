/-
PublishOnce.Proofs.Settings.Start — the place that a run is started in.

A run looks for its configuration file upwards, so it can be started anywhere
below the directory of the file. `load_from_below` says that this is no more than a
convenience: with no file nearer than that one and no relative path on the
command line, loading comes to the same end and says the same, and the settings
are those of a run in the directory itself.

Two things make it so. The way up passes through the directory, written exactly as
a run in it starts from it (`parent?_path`), so the file is found under the same
name. And from there on nothing is asked about where the run was started: the
base of the paths in the file is the parent of its name, and an absolute path
leads to the same place from everywhere.

A directory called like the file does not stop the search, and below a file there
is nothing. Both are cases of `isFile` and of no rule here.
-/
import Mathlib.Data.List.Induction
import PublishOnce.Proofs.Bytes
import PublishOnce.Proofs.Settings.Precedence
import PublishOnce.Proofs.Settings.Search

namespace PublishOnce

/-! ## 1. Paths without dots -/

namespace Location

variable {place names : Location} {name : Bytes}

theorem bytes_path (h : place ≠ []) : place.path.bytes = place.flatMap (Path.slash :: ·) :=
  (Path.flatMap_eq_joinSegments h).symm

/-- A path that is written out name by name does not end in a separator, the root excepted. -/
theorem getLast?_path (hplain : IsPlain name) (place : Location) :
    (place ++ [name]).path.bytes.getLast? ≠ some Path.slash := by
  obtain ⟨⟨hempty, -⟩, hslash⟩ := hplain
  have hbytes : (place ++ [name]).path.bytes =
      (place.flatMap (Path.slash :: ·) ++ [Path.slash]) ++ name := by
    rw [bytes_path (by simp)]
    simp
  rw [hbytes, List.getLast?_append_of_ne_nil _ hempty]
  intro hlast
  exact hslash (List.mem_of_getLast? hlast)

/-- Writing a place out is joining its names, one by one. -/
theorem path_concat (hplain : ∀ name ∈ place, IsPlain name) (hname : IsPlain name) :
    path (place ++ [name]) = (path place).join ⟨name⟩ := by
  have hrelative := Path.isAbsolute_of_not_mem hname.2
  unfold Path.join
  rw [if_neg (by simp [hrelative])]
  obtain rfl | ⟨front, last, rfl⟩ := List.eq_nil_or_concat place
  · simp [path, Path.render, Path.joinSegments]
  · rw [List.concat_eq_append] at hplain ⊢
    have hlast := getLast?_path (hplain last (by simp)) front
    have hempty : (path (front ++ [last])).bytes ≠ [] := by simp [path, Path.render]
    rw [if_neg (by simp [hlast, hempty]), bytes_path (by simp), Path.ext_iff, bytes_path (by simp)]
    simp

theorem trimmed_path (hplain : ∀ name ∈ place, IsPlain name) : (path place).trimmed = path place := by
  obtain rfl | ⟨front, last, rfl⟩ := List.eq_nil_or_concat place
  · decide +kernel
  · rw [List.concat_eq_append] at hplain ⊢
    obtain ⟨hfront, hlast⟩ := List.forall_mem_append.mp hplain
    rw [path_concat hfront (hlast last (by simp))]
    exact Path.trimmed_join_name (hlast last (by simp)) _

/-- The parent of a path that is written out is the rest of it, byte for byte. -/
theorem parent?_join_path (hplain : ∀ name ∈ place, IsPlain name) (hname : IsPlain name) :
    ((path place).join ⟨name⟩).parent? = some (path place) := by
  rw [Path.parent?_join_name hname, trimmed_path hplain]

theorem parent?_path (hplain : ∀ name ∈ place, IsPlain name) (hname : IsPlain name) :
    (path (place ++ [name])).parent? = some (path place) := by
  rw [path_concat hplain hname, parent?_join_path hplain hname]

end Location

/-! ## 2. The way up -/

namespace Settings

variable {files : FileTree} {cwd place names : Location}

theorem isPlain_fileName : Location.IsPlain fileName := by
  decide +kernel

/-- A regular file of the name that is looked for. -/
def HasFile (files : FileTree) (cwd place : Location) : Prop :=
  files.isFile cwd (place.path.join fileName) = true

instance (files : FileTree) (cwd place : Location) : Decidable (HasFile files cwd place) :=
  inferInstanceAs (Decidable (_ = _))

theorem isAbsolute_fileName : (Path.ofText fileName).isAbsolute = false :=
  Path.isAbsolute_of_not_mem isPlain_fileName.2

theorem findFile_of_hasFile (h : HasFile files cwd place) :
    findFile files cwd place.path fileName = some (place.path.join fileName) :=
  findFile_of_isRegular isAbsolute_fileName (FileTree.isFile_iff.mp h)

/-- A directory without the file is passed on the way up. -/
theorem findFile_of_not_hasFile {name : Bytes} (hplain : ∀ name ∈ place, Location.IsPlain name)
    (hname : Location.IsPlain name) (h : ¬ HasFile files cwd (place ++ [name])) :
    findFile files cwd (Location.path (place ++ [name])) fileName =
      findFile files cwd place.path fileName := by
  rw [findFile_of_not_isRegular isAbsolute_fileName (mt FileTree.isFile_iff.mpr h),
    Location.parent?_path hplain hname, Option.bind_some]

/-- From below a directory the same file is found as in it, if there is none on the way. -/
theorem findFile_below (hplain : ∀ name ∈ place ++ names, Location.IsPlain name)
    (hway : ∀ front, front <+: names → front ≠ [] → ¬ HasFile files cwd (place ++ front)) :
    findFile files cwd (Location.path (place ++ names)) fileName =
      findFile files cwd place.path fileName := by
  induction names using List.reverseRecOn with
  | nil => rw [List.append_nil]
  | append_singleton names name ih =>
    rw [← List.append_assoc] at hplain ⊢
    obtain ⟨habove, hname⟩ := List.forall_mem_append.mp hplain
    have hhere := hway (names ++ [name]) List.prefix_rfl (by simp)
    rw [← List.append_assoc] at hhere
    rw [findFile_of_not_hasFile habove (hname name (by simp)) hhere]
    refine ih habove ?_
    intro front hfront
    exact hway front (hfront.trans (List.prefix_append ..))

/-! ## 3. Absolute paths from anywhere -/

theorem readFile?_of_isAbsolute {path : Path} (h : path.isAbsolute = true) (files : FileTree)
    (cwd there : Location) : files.readFile? cwd path = files.readFile? there path := by
  unfold FileTree.readFile? FileTree.entry? FileTree.resolve FileTree.startOf
  rw [if_pos h, if_pos h]

theorem toList_shown_of_isAbsolute {path : Path} (h : path.isAbsolute = true) :
    ∃ rest, path.shown.toList = '/' :: rest := by
  obtain ⟨rest, hrest⟩ := Path.isAbsolute_iff.mp h
  have hslash : Char.ofNat Path.slash.toNat = '/' := by decide
  rw [Path.shown, hrest, Bytes.toText_cons (by decide), hslash]
  exact ⟨(Bytes.toText rest).toList, by simp⟩

theorem isAbsolute_shown {path : Path} (h : path.isAbsolute = true) :
    (Path.ofText path.shown).isAbsolute = true := by
  obtain ⟨rest, hrest⟩ := toList_shown_of_isAbsolute h
  have hbytes : Bytes.ofString path.shown =
      Text.Utf8.encodeChar '/' ++ rest.flatMap Text.Utf8.encodeChar := by
    rw [Bytes.ofString, Text.Utf8.encode, hrest, List.flatMap_cons]
  exact Path.isAbsolute_iff.mpr ⟨_, hbytes⟩

/-- Of an absolute path nothing is kept but what is shown of it, whatever it is relative to. -/
theorem resolveIn_of_isAbsolute {path : Path} (h : path.isAbsolute = true) (home : Option String)
    (root : Path) : Path.resolveIn home root path = .ofText path.shown := by
  have hexpand : path.expandHome home = .ofText path.shown := by
    obtain ⟨rest, hrest⟩ := toList_shown_of_isAbsolute h
    unfold Path.expandHome
    split <;> simp_all
  unfold Path.resolveIn Path.join
  rw [hexpand, if_pos (isAbsolute_shown h)]

/-- The paths on the command line are absolute, where there are any. -/
structure IsAnywhere (overrides : Overrides) : Prop where
  dir : ∀ path ∈ overrides.dir, path.isAbsolute = true
  source : ∀ path ∈ overrides.source, path.isAbsolute = true
  scratch : ∀ path ∈ overrides.scratch, path.isAbsolute = true

theorem map_resolveIn_of_isAbsolute {override : Option Path}
    (h : ∀ path ∈ override, path.isAbsolute = true) (home : Option String) (root there : Path) :
    override.map (Path.resolveIn home root) = override.map (Path.resolveIn home there) := by
  refine Option.map_congr fun path hpath => ?_
  rw [resolveIn_of_isAbsolute (h path hpath), resolveIn_of_isAbsolute (h path hpath)]

/-- Such overrides are the same from everywhere. -/
theorem IsAnywhere.override_eq {overrides : Overrides} (h : IsAnywhere overrides)
    (settings : Settings) (home : Option String) (cwd there : Path) :
    settings.override overrides home cwd = settings.override overrides home there := by
  unfold override
  rw [map_resolveIn_of_isAbsolute h.dir home cwd there,
    map_resolveIn_of_isAbsolute h.source home cwd there,
    map_resolveIn_of_isAbsolute h.scratch home cwd there]

/-! ## 4. Loading -/

variable {G : Type} {world : World G}

/-- The world as it is seen from another directory. -/
def seenFrom (there : Location) (world : World G) : World G := { world with cwd := there }

theorem notes_seenFrom (names : List String) (there : Location) (world : World G) :
    names.foldl (fun world name => world.note ("- " ++ name)) (seenFrom there world) =
      seenFrom there (names.foldl (fun world name => world.note ("- " ++ name)) world) := by
  induction names generalizing world with
  | nil => rfl
  | cons name names ih => exact ih (world.note ("- " ++ name))

theorem debug_seenFrom (origin text : String) (there : Location) (world : World G) :
    (seenFrom there world).debug origin text = seenFrom there (world.debug origin text) := by
  show (if world.verbose then (seenFrom there world).say _ else seenFrom there world) = _
  unfold World.debug
  split <;> rfl

/-- A file with an absolute path is read alike from everywhere, and the same is said about it. -/
theorem readSource_seenFrom {path : Path} (h : path.isAbsolute = true) (there : Location)
    (world : World G) :
    readSource (some path) (seenFrom there world) =
      ((readSource (some path) world).1, seenFrom there (readSource (some path) world).2) := by
  simp only [readSource, readFile, Act.bind_apply, Act.debug_apply, Act.get_apply, debug_seenFrom]
  generalize world.debug "config" ("using " ++ path.shown) = said
  have hread : (seenFrom there said).files.readFile? (seenFrom there said).cwd path =
      said.files.readFile? said.cwd path := readFile?_of_isAbsolute h ..
  rw [hread]
  cases (said.files.readFile? said.cwd path).bind Text.Utf8.decode? with
  | none => rfl
  | some text =>
    simp only
    cases ofText text with
    | error reason => rfl
    | ok result =>
      obtain ⟨settings, ignored⟩ := result
      simp only
      split
      · simp only [Act.bind_apply, Act.log_apply, Act.modify_apply, Act.pure_apply]
        exact congrArg (Prod.mk (Except.ok settings)) (notes_seenFrom ignored there (said.say _))
      · rfl

theorem located_of_hasFile (h : HasFile world.files world.cwd place) :
    located world place.path none = .ok (some (place.path.join fileName)) := by
  unfold located
  rw [findFile_of_hasFile h]

theorem baseOf_join_fileName (hplain : ∀ name ∈ place, Location.IsPlain name) (cwd : Path) :
    baseOf cwd (some (place.path.join fileName)) = place.path := by
  unfold baseOf
  rw [Option.bind_some, Location.parent?_join_path hplain isPlain_fileName, Option.getD_some]

theorem hasFile_seenFrom {there : Location} :
    HasFile (seenFrom there world).files (seenFrom there world).cwd place ↔
      HasFile world.files world.cwd place := by
  have habsolute : (place.path.join fileName).isAbsolute = true :=
    Path.isAbsolute_join (Location.isAbsolute_path place) _
  have hread := readFile?_of_isAbsolute habsolute world.files there world.cwd
  show (world.files.readFile? there _).isSome = true ↔ (world.files.readFile? world.cwd _).isSome = true
  rw [hread]

/-- The file that is found from below a directory, wherever the program itself was started. -/
theorem located_below {there : Location}
    (hplain : ∀ name ∈ place ++ names, Location.IsPlain name)
    (hfile : HasFile world.files world.cwd place)
    (hway : ∀ front, front <+: names → front ≠ [] →
      ¬ HasFile world.files world.cwd (place ++ front)) :
    located (seenFrom there world) (Location.path (place ++ names)) none =
      .ok (some (place.path.join fileName)) := by
  unfold located
  rw [findFile_below hplain, findFile_of_hasFile (hasFile_seenFrom.mpr hfile)]
  intro front hfront hne hfound
  exact hway front hfront hne (hasFile_seenFrom.mp hfound)

theorem combine_below {overrides : Overrides} (hplain : ∀ name ∈ place, Location.IsPlain name)
    (hanywhere : IsAnywhere overrides) (own : Settings) (home : Option String) (cwd there : Path) :
    own.combine home cwd (some (place.path.join fileName)) overrides =
      own.combine home there (some (place.path.join fileName)) overrides := by
  unfold combine
  rw [baseOf_join_fileName hplain, baseOf_join_fileName hplain, hanywhere.override_eq]

/-- A run that is started below the directory of its configuration file loads what a run in the
directory loads: the same settings or the same failure, with the same said about it. The paths in the
file are relative to the directory. -/
theorem load_from_below {overrides : Overrides}
    (hplain : ∀ name ∈ place ++ names, Location.IsPlain name)
    (hfile : HasFile world.files world.cwd place)
    (hway : ∀ front, front <+: names → front ≠ [] →
      ¬ HasFile world.files world.cwd (place ++ front))
    (hanywhere : IsAnywhere overrides) (there : Location) :
    load (Location.path (place ++ names)) none overrides (seenFrom there world) =
        ((load place.path none overrides world).1,
          seenFrom there (load place.path none overrides world).2)
      ∧ ∀ settings, (load place.path none overrides world).1 = .ok settings →
          ∃ own, ownSettings world (some (place.path.join fileName)) = .ok own
            ∧ Chosen world.home place.path place.path overrides own settings := by
  have habove : ∀ name ∈ place, Location.IsPlain name := (List.forall_mem_append.mp hplain).1
  have habsolute : (place.path.join fileName).isAbsolute = true :=
    Path.isAbsolute_join (Location.isAbsolute_path place) _
  constructor
  · rw [load_eq, load_eq, located_of_hasFile hfile, located_below hplain hfile hway]
    simp only [readSource_seenFrom habsolute]
    rcases readSource (some (place.path.join fileName)) world with ⟨_ | own, read⟩
    · rfl
    · simp only
      rw [combine_below habove hanywhere own _ (Location.path (place ++ names)) place.path]
      rfl
  · intro settings hsettings
    obtain ⟨world', hload, -⟩ := load_apply place.path none overrides world
    rw [hload, loaded, located_of_hasFile hfile] at hsettings
    simp only at hsettings
    split at hsettings
    · cases hsettings
    · next own hown =>
      obtain ⟨-, rfl⟩ := checked_eq_ok_iff.mp hsettings
      have hchosen := chosen_combine own world.home place.path
        (some (place.path.join fileName)) overrides
      rw [baseOf_join_fileName habove] at hchosen
      exact ⟨own, hown, hchosen⟩

/-- A directory with a configuration file that has an unknown field, and two directories below it. The
nearer one holds a directory that is called like the file. -/
def nestedWorld : World Unit where
  files :=
    ⟨[(["w"], .dir), (["w", "a"], .dir), (["w", "a", "deploy.toml"], .dir), (["w", "a", "b"], .dir),
      (["w", "deploy.toml"], .file (Text.Utf8.encode "more = 1\n[target]\ndir = \"out\"\n"))]⟩
  cwd := ["w"]
  home := "/home/me"
  git := ()

/-- The directory with the file, and the way down from it. -/
def nestedPlace : Location := ["w"]
def nestedNames : Location := ["a", "b"]

/-- A scratch directory, from the root on. -/
def nestedOverrides : Overrides := { scratch := some "/tmp" }

/-- The general statement from two directories further down, past a directory that is called like the
file. -/
theorem load_from_below_nested :
    (∀ name ∈ nestedPlace ++ nestedNames, Location.IsPlain name)
      ∧ HasFile nestedWorld.files nestedWorld.cwd nestedPlace
      ∧ (∀ front, front <+: nestedNames → front ≠ [] →
          ¬ HasFile nestedWorld.files nestedWorld.cwd (nestedPlace ++ front))
      ∧ IsAnywhere nestedOverrides
      ∧ (load "/w/a/b" none nestedOverrides (seenFrom (nestedPlace ++ nestedNames) nestedWorld)).1 =
          .ok { source := { root := "/w/." }
                target := { dir := "/w/out", scratch := "/tmp" } }
      ∧ (load "/w/a/b" none nestedOverrides
            (seenFrom (nestedPlace ++ nestedNames) nestedWorld)).2.journal =
          ⟨[⟨"warning", "unknown fields in /w/deploy.toml, ignoring:", false⟩], ["- more"]⟩ := by
  have hplain : ∀ name ∈ nestedPlace ++ nestedNames, Location.IsPlain name := by decide +kernel
  have hfile : HasFile nestedWorld.files nestedWorld.cwd nestedPlace := by decide +kernel
  have hway : ∀ front, front <+: nestedNames → front ≠ [] →
      ¬ HasFile nestedWorld.files nestedWorld.cwd (nestedPlace ++ front) := by
    intro front hfront
    rw [← List.mem_inits] at hfront
    revert front
    decide +kernel
  have hanywhere : IsAnywhere nestedOverrides :=
    ⟨by decide +kernel, by decide +kernel, by decide +kernel⟩
  have hbelow :=
    (load_from_below hplain hfile hway hanywhere (nestedPlace ++ nestedNames)).1
  have hpath : Location.path (nestedPlace ++ nestedNames) = "/w/a/b" := by decide +kernel
  rw [hpath] at hbelow
  rw [hbelow]
  refine ⟨hplain, hfile, hway, hanywhere, ?_, ?_⟩
  · exact eq_ok_of_toOption (by decide +kernel)
  · decide +kernel

end Settings

end PublishOnce
