/-
PublishOnce.Proofs.Settings.Load — loading settings, as one equation.

Loading looks for a file, reads it, puts the sources together and checks the
result. Each of the four can be said without the world that it happens in:
`located` and `ownSettings` depend on the files, `combine` on what was read, and
the check on what was combined. `load_apply` puts them in a row. What is left of
the world is its journal, in which alone loading leaves a trace.
-/
import PublishOnce.Proofs.Act
import PublishOnce.Proofs.Settings.Diagnostics
import PublishOnce.Settings.Load

namespace PublishOnce.Settings

open World (SameGround)

variable {G : Type}

/-- The configuration file to be read, if there is one. -/
def located (world : World G) (cwd : Path) (asked : Option Path) : Except Failure (Option Path) :=
  match asked with
  | some path =>
    if world.files.isFile world.cwd (Path.resolveIn world.home cwd path) then
      .ok (some (Path.resolveIn world.home cwd path))
    else .error (.configMissing (Path.resolveIn world.home cwd path))
  | none => .ok (findFile world.files world.cwd cwd ⟨fileName⟩)

theorem locate_apply (cwd : Path) (asked : Option Path) (world : World G) :
    locate cwd asked world = (located world cwd asked, world) := by
  unfold locate located
  rw [Act.bind_apply, Act.get_apply]
  cases asked with
  | none => rfl
  | some path =>
    simp only
    split <;> rfl

/-- The text of a file. -/
def readText (files : FileTree) (cwd : Location) (path : Path) : Option String :=
  (files.readFile? cwd path).bind Text.Utf8.decode?

/-- The settings of a source before anything is put over them. -/
def ownSettings (world : World G) (file : Option Path) : Except Failure Settings :=
  match file with
  | none => .ok {}
  | some path =>
    match readText world.files world.cwd path with
    | none => .error (.configUnreadable path)
    | some text => ((ofText text).mapError .configMalformed).map Prod.fst

theorem ownSettings_eq_ok_iff {world : World G} {path : Path} {own : Settings} :
    ownSettings world (some path) = .ok own ↔
      ∃ text ignored, readText world.files world.cwd path = some text
        ∧ ofText text = .ok (own, ignored) := by
  have hresult (outcome : Except DocumentError (Settings × List String)) :
      (outcome.mapError Failure.configMalformed).map Prod.fst = .ok own ↔
        ∃ ignored, outcome = .ok (own, ignored) := by
    rcases outcome with reason | ⟨settings, ignored⟩
    · exact iff_of_false (fun h => nomatch h) fun ⟨_, h⟩ => nomatch h
    · constructor
      · intro h
        obtain rfl := Except.ok.inj h
        exact ⟨ignored, rfl⟩
      · rintro ⟨_, h⟩
        exact congrArg Except.ok (Prod.mk.inj (Except.ok.inj h)).1
  simp only [ownSettings]
  cases readText world.files world.cwd path with
  | none => simp
  | some text => simp [hresult]

theorem sameGround_notes (names : List String) (world : World G) :
    SameGround (names.foldl (fun world name => world.note ("- " ++ name)) world) world := by
  induction names generalizing world with
  | nil => exact .refl world
  | cons name names ih => exact (ih _).trans ⟨rfl, rfl, rfl, rfl⟩

theorem readFile_apply (path : Path) (world : World G) :
    ∃ world', readFile path world = (ownSettings world (some path), world')
      ∧ SameGround world' world := by
  unfold readFile ownSettings readText
  rw [Act.bind_apply, Act.get_apply]
  simp only
  cases (world.files.readFile? world.cwd path).bind Text.Utf8.decode? with
  | none => exact ⟨world, rfl, .refl world⟩
  | some text =>
    simp only
    cases ofText text with
    | error reason => exact ⟨world, rfl, .refl world⟩
    | ok result =>
      obtain ⟨settings, ignored⟩ := result
      simp only
      split
      · simp only [Act.bind_apply, Act.log_apply, Act.modify_apply]
        exact ⟨_, rfl, (sameGround_notes ignored _).trans (World.sameGround_say ..)⟩
      · exact ⟨world, rfl, .refl world⟩

/-- What a file says does not depend on what has been said. -/
theorem ownSettings_congr {world other : World G} (h : SameGround world other)
    (file : Option Path) : ownSettings world file = ownSettings other file := by
  unfold ownSettings
  rw [h.files, h.cwd]

theorem readSource_apply (file : Option Path) (world : World G) :
    ∃ world', readSource file world = (ownSettings world file, world')
      ∧ SameGround world' world := by
  cases file with
  | none =>
    simp only [readSource, Act.bind_apply, Act.debug_apply]
    exact ⟨_, rfl, World.sameGround_debug ..⟩
  | some path =>
    obtain ⟨world', hread, hground⟩ := readFile_apply path
      (world.debug "config" ("using " ++ path.shown))
    have hdebug := World.sameGround_debug world "config" ("using " ++ path.shown)
    simp only [readSource, Act.bind_apply, Act.debug_apply]
    exact ⟨world', hread.trans (by rw [ownSettings_congr hdebug]), hground.trans hdebug⟩

/-- Settings that break no rule, or else the rules that they break. -/
def checked (settings : Settings) : Except Failure Settings :=
  if settings.diagnostics = [] then .ok settings else .error (.configInvalid settings.diagnostics)

/-- Loading without the transformers. -/
theorem load_eq (cwd : Path) (asked : Option Path) (overrides : Overrides) (world : World G) :
    load cwd asked overrides world =
      match located world cwd asked with
      | .error reason => (.error reason, world)
      | .ok file =>
        match readSource file world with
        | (.error reason, world) => (.error reason, world)
        | (.ok own, world) => (checked (own.combine world.home cwd file overrides), world) := by
  unfold load
  rw [Act.bind_apply, locate_apply]
  cases located world cwd asked with
  | error reason => rfl
  | ok file =>
    simp only [Act.bind_apply]
    rcases readSource file world with ⟨_ | own, read⟩
    · rfl
    · simp only [Act.get_apply, checked, validate, resultOf]
      cases (own.combine read.home cwd file overrides).diagnostics <;> simp

/-- What comes of loading. -/
def loaded (world : World G) (cwd : Path) (asked : Option Path) (overrides : Overrides) :
    Except Failure Settings :=
  match located world cwd asked with
  | .error reason => .error reason
  | .ok file =>
    match ownSettings world file with
    | .error reason => .error reason
    | .ok own => checked (own.combine world.home cwd file overrides)

/-- Loading leaves nothing behind but messages. -/
theorem load_apply (cwd : Path) (asked : Option Path) (overrides : Overrides) (world : World G) :
    ∃ world', load cwd asked overrides world = (loaded world cwd asked overrides, world')
      ∧ SameGround world' world := by
  rw [load_eq]
  unfold loaded
  cases located world cwd asked with
  | error reason => exact ⟨world, rfl, .refl world⟩
  | ok file =>
    obtain ⟨world', hread, hground⟩ := readSource_apply file world
    refine ⟨world', ?_, hground⟩
    simp only [hread]
    cases ownSettings world file with
    | error reason => rfl
    | ok own => simp only [hground.home]

end PublishOnce.Settings
