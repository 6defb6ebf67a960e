/-
PublishOnce.Proofs.Publication.Destination — the repository that is looked at
and the repository that is pushed to.

The two are named by one text, but git reads it twice. The clone is made in the
working directory and the push in the directory that is published, and an
address that is a relative path is relative to where it is read. Nothing makes
it absolute in between, as is done with the paths of the settings.

How much this matters is a question about the path alone. It goes up a number of
levels and then down again (`route`), so from two places it leads to one
repository exactly if the places agree above this number of levels
(`follow_eq_follow_iff`).
-/
import Mathlib.Data.List.DropRight
import PublishOnce.Proofs.Publication.Course
import PublishOnce.Proofs.Publication.Fetched
import PublishOnce.Settings.Load

namespace PublishOnce

open Program (Shell Command Attempt InPlace)
open World (SameGround)

/-! ## 1. Up and down -/

namespace Location

variable {place other : Location} {segments : List Bytes}

/-- One segment more behind a way that goes up and then down. -/
def lengthen (way : Nat × List Bytes) (segment : Bytes) : Nat × List Bytes :=
  if Path.isInert segment then way
  else if segment = FileTree.up then if way.2 = [] then (way.1 + 1, []) else (way.1, way.2.dropLast)
  else (way.1, way.2 ++ [segment])

/-- How many levels segments go up in the end, and which way down from there. -/
def route (segments : List Bytes) : Nat × List Bytes := segments.foldl lengthen (0, [])

theorem dropLast_rdrop (place : Location) (levels : Nat) :
    (place.rdrop levels).dropLast = place.rdrop (levels + 1) := by
  rw [List.rdrop, List.rdrop, List.dropLast_eq_take, List.take_take, List.length_take]
  congr 1
  omega

theorem step_route (place : Location) (way : Nat × List Bytes) (segment : Bytes) :
    Location.step (place.rdrop way.1 ++ way.2) segment =
      place.rdrop (lengthen way segment).1 ++ (lengthen way segment).2 := by
  obtain ⟨levels, down⟩ := way
  unfold step lengthen
  split
  · rfl
  · split
    · by_cases hdown : down = []
      · rw [hdown, if_pos rfl, List.append_nil, dropLast_rdrop]
        exact (List.append_nil _).symm
      · rw [if_neg hdown, List.dropLast_append_of_ne_nil hdown]
    · exact List.append_assoc ..

/-- From any place, segments go up and then down. -/
theorem follow_eq (place : Location) (segments : List Bytes) :
    place.follow segments = place.rdrop (route segments).1 ++ (route segments).2 := by
  have hfold : ∀ (segments : List Bytes) (way : Nat × List Bytes),
      Location.follow (place.rdrop way.1 ++ way.2) segments =
        place.rdrop (segments.foldl lengthen way).1 ++ (segments.foldl lengthen way).2 := by
    intro segments
    induction segments with
    | nil => exact fun _ => rfl
    | cons segment rest ih =>
      intro way
      rw [follow_cons, step_route, ih, List.foldl_cons]
  simpa [route] using hfold segments (0, [])

/-- Segments lead from two places to the same one exactly if the two agree above the levels that the
segments go up. -/
theorem follow_eq_follow_iff :
    place.follow segments = other.follow segments ↔
      place.rdrop (route segments).1 = other.rdrop (route segments).1 := by
  rw [follow_eq, follow_eq, List.append_left_inj]

/-- A place and one below it agree above a number of levels only if that is the root. -/
theorem rdrop_append_eq_iff {below : Location} (hne : below ≠ []) (levels : Nat) :
    place.rdrop levels = (place ++ below).rdrop levels ↔ (place ++ below).length ≤ levels := by
  have hpos := List.length_pos_iff.mpr hne
  constructor
  · intro h
    have hlength := congrArg List.length h
    simp only [List.rdrop, List.length_take, List.length_append] at hlength
    simp only [List.length_append]
    omega
  · intro h
    have hplace : place.length ≤ levels := by
      rw [List.length_append] at h
      omega
    simp only [List.rdrop, Nat.sub_eq_zero_of_le h, Nat.sub_eq_zero_of_le hplace, List.take_zero]

end Location

/-! ## 2. Addresses -/

/-- What an address comes to. -/
inductive Address where
  | place (place : Location)
  /-- An address that means the same everywhere. -/
  | url (text : String)
  deriving DecidableEq, Repr

/-- An address is a path unless there is a colon in front of its first slash. -/
def isLocal (remote : String) : Bool := !(remote.toList.takeWhile (· ≠ '/')).contains ':'

/-- An address that depends on where it is read. -/
def isRelative (remote : String) : Bool := isLocal remote && !(Path.ofText remote).isAbsolute

/-- The repository that an address designates, for a git that runs in a directory. -/
def addressOf (dir : Location) (remote : String) : Address :=
  if isLocal remote then .place (Path.place dir remote) else .url remote

/-- How many levels an address goes up. -/
def climb (remote : String) : Nat := (Location.route (FileTree.segments remote)).1

theorem addressOf_eq_iff {dir other : Location} {remote : String} :
    addressOf dir remote = addressOf other remote ↔
      (isRelative remote = true → dir.rdrop (climb remote) = other.rdrop (climb remote)) := by
  unfold addressOf isRelative climb
  by_cases hlocal : isLocal remote = true
  · by_cases habsolute : (Path.ofText remote).isAbsolute = true
    · simp [hlocal, habsolute, Path.place, FileTree.startOf]
    · simp [hlocal, habsolute, Path.place, FileTree.startOf, Location.follow_eq_follow_iff]
  · simp [hlocal]

/-! ## 3. Where git runs -/

section
variable {settings : Settings} {world : World Shell}

theorem inPlace_shortHead (repo : Path) (world : World Shell) :
    InPlace world (Git.installedShortHead repo world).2 := by
  have hrun := InPlace.run (Git.command ["rev-parse", "--short", "HEAD"] repo) world
  rw [Git.installedShortHead_apply]
  split
  · next hran => rwa [hran] at hrun
  · next hran =>
    rw [hran] at hrun
    split <;> exact hrun

theorem inPlace_remoteSubject (settings : Settings) (world : World Shell) :
    InPlace world (remoteSubject settings.target.remote settings.target.scratch world).2 := by
  have hrun := InPlace.run (cloneCommand settings) world
  have hremoved : ∀ ran : World Shell, InPlace ran (removeClone settings.clonePath ran) := fun ran =>
    .of_eq (removeClone_cwd ..) (removeClone_git ..)
  rw [remoteSubject_apply]
  split
  · exact .refl world
  · rcases hran : (cloneCommand settings).run world with ⟨_ | _, ran⟩ <;>
    · rw [hran] at hrun
      simp only
      exact hrun.trans (hremoved ran)

theorem inPlace_compare (settings : Settings) (world : World Shell) :
    InPlace world (compare settings world).2 := by
  have hasked := inPlace_shortHead settings.source.root world
  rw [compare_apply]
  rcases hran : Git.installedShortHead settings.source.root world with ⟨_ | revision, asked⟩
  · rwa [hran] at hasked
  · rw [hran] at hasked
    simp only
    have hsaid : InPlace asked
        (asked.say ⟨"deploy", "Current repository hash: " ++ revision, false⟩) := .of_eq rfl rfl
    exact (hasked.trans hsaid).trans (inPlace_remoteSubject settings _)

theorem inPlace_runStep (dir : Path) (step : Step) (world : World Shell) :
    InPlace world (runStep dir step world).2 := by
  have hrun := InPlace.run (stepCommand dir step) world
  rw [runStep_apply]
  rcases hran : (stepCommand dir step).run world with ⟨_ | _, ran⟩ <;>
  · rw [hran] at hrun
    exact hrun.trans (.of_eq rfl rfl)

theorem inPlace_runSteps (dir : Path) (steps : List Step) (world : World Shell) :
    InPlace world (runSteps dir steps world).2 := by
  induction steps generalizing world with
  | nil => exact .refl world
  | cons step rest ih =>
    have hstep := inPlace_runStep dir step world
    rw [runSteps, Act.bind_apply]
    rcases hran : runStep dir step world with ⟨_ | _, ran⟩
    · rwa [hran] at hstep
    · rw [hran] at hstep
      exact hstep.trans (ih ran)

theorem inPlace_publish (settings : Settings) (world : World Shell) :
    InPlace world (publish settings world).2 := by
  have hcompare := inPlace_compare settings world
  rw [publish_apply]
  rcases hran : compare settings world with ⟨_ | comparison, looked⟩
  · rwa [hran] at hcompare
  · rw [hran] at hcompare
    simp only
    split
    · exact hcompare.trans (.of_eq rfl rfl)
    · refine (hcompare.trans (.of_eq rfl rfl)).trans ?_
      rw [pushOutput_apply]
      split
      · exact inPlace_runSteps ..
      · exact .refl _

end

/-! ## 4. One repository or two -/

/-- The commands of a publication that lead to the repository that is pushed to. -/
def pushCommands (settings : Settings) : List Command :=
  [stepCommand settings.target.dir (.addRemote settings.target.remote),
   stepCommand settings.target.dir (.forcePush settings.target.branch)]

/-- In a publication the clone is made in the working directory, and the remote repository is named
and pushed to in the directory that is published. There its address designates the same repository
exactly if it is no relative path, or the two directories agree above the levels that it goes up; if
one directory is below the other, only a path that goes up to the root does. A publication that ends
well has done both. -/
theorem publish_same_repository_iff (settings : Settings) (world : World Shell) :
    ∃ attempts, (publish settings world).2.git.attempts = world.git.attempts ++ attempts
      ∧ (∀ looked ∈ attempts, looked.asked = (cloneCommand settings).asked →
          ∀ pushed ∈ attempts, pushed.asked ∈ (pushCommands settings).map Command.asked →
          ∀ place place', looked.outcome = .ok place → pushed.outcome = .ok place' →
            place = world.cwd ∧ place' = settings.target.dir.place world.cwd
              ∧ (addressOf place settings.target.remote = addressOf place' settings.target.remote ↔
                (isRelative settings.target.remote = true →
                  world.cwd.rdrop (climb settings.target.remote) =
                    (settings.target.dir.place world.cwd).rdrop (climb settings.target.remote)))
              ∧ ∀ below, below ≠ [] → place' = place ++ below →
                isRelative settings.target.remote = true →
                (addressOf place settings.target.remote = addressOf place' settings.target.remote ↔
                  place'.length ≤ climb settings.target.remote))
      ∧ ((publish settings world).1 = .ok .published →
          ∀ command ∈ cloneCommand settings :: pushCommands settings,
            ∃ attempt ∈ attempts, attempt.asked = command.asked ∧ attempt.started = true) := by
  obtain ⟨-, attempts, hattempts, hplaced⟩ := inPlace_publish settings world
  refine ⟨attempts, hattempts, ?_, ?_⟩
  · intro looked hlooked hcloned pushed hpushed hstep place place' hplace hplace'
    have hdir : looked.dir = none := congrArg (·.2.2) hcloned
    have hdir' : pushed.dir = some settings.target.dir := by
      obtain ⟨command, hcommand, hasked⟩ := List.mem_map.mp hstep
      simp only [pushCommands, List.mem_cons, List.not_mem_nil, or_false] at hcommand
      rcases hcommand with rfl | rfl <;> exact (congrArg (·.2.2) hasked).symm
    have hcwd := hplaced looked hlooked place hplace
    have hpublished := hplaced pushed hpushed place' hplace'
    rw [hdir] at hcwd
    rw [hdir'] at hpublished
    obtain rfl : place = world.cwd := hcwd
    obtain rfl : place' = settings.target.dir.place world.cwd := hpublished
    refine ⟨rfl, rfl, addressOf_eq_iff, fun below hne hbelow hrelative => ?_⟩
    rw [addressOf_eq_iff, hbelow, ← Location.rdrop_append_eq_iff hne]
    exact ⟨fun h => h hrelative, fun h _ => h⟩
  · intro hend command hcommand
    obtain ⟨revision, commands, success, htried, -, -, -, hpublished, -⟩ :=
      (publish_ended settings world).tried
    obtain ⟨attempts', hattempts', -, hwhole, count, hverdicts⟩ := htried.recorded
    obtain rfl : attempts = attempts' := List.append_cancel_left (hattempts.symm.trans hattempts')
    obtain ⟨rfl, rfl⟩ := hpublished.mp hend
    have hsucceeded : ∀ verdict ∈ Program.verdicts world.git.answers attempts, verdict = true := by
      rw [hverdicts]
      simp
    have hstarted := Program.started_of_verdicts hsucceeded
    have hmem : command ∈ course settings revision := by
      simp only [pushCommands, List.mem_cons, List.not_mem_nil, or_false] at hcommand
      rcases hcommand with rfl | rfl | rfl <;> simp [course, publicationPlan]
    have hasked : command.asked ∈ attempts.map Attempt.asked :=
      hwhole ▸ List.mem_map_of_mem hmem
    obtain ⟨attempt, hattempt, hsame⟩ := List.mem_map.mp hasked
    exact ⟨attempt, hattempt, hsame, hstarted attempt hattempt⟩

/-- A working directory that has a directory to publish below it. -/
def siblingWorld : World Shell :=
  { cloningWorld "abc1234\n" (.unborn "main") with
    cwd := ["w"]
    files := ⟨[(["w"], .dir), (["w", "demo"], .dir), (["w", "demo", "dist"], .dir)]⟩ }

/-- What is loaded there, if a repository beside the working directory is asked for. -/
def siblingSettings : Settings where
  source := { root := "/w/." }
  target := { remote := "../site.git", dir := "/w/demo/dist", scratch := "/w/." }

/-- The repository beside the working directory is cloned, and a repository below it is pushed to. -/
theorem publish_other_repository :
    (Settings.load "/w" none { remote := some "../site.git" } siblingWorld).1 = .ok siblingSettings
      ∧ (publish siblingSettings siblingWorld).1 = .ok .published
      ∧ (publish siblingSettings siblingWorld).2.git.attempts[1]?.map
            (fun attempt => (attempt.args, attempt.outcome.toOption)) =
          some ((["clone", "--bare", "../site.git", "/w/./site.git"] : List Bytes),
            some (["w"] : Location))
      ∧ (publish siblingSettings siblingWorld).2.git.attempts[7]?.map
            (fun attempt => (attempt.args, attempt.outcome.toOption)) =
          some ((["remote", "add", "origin", "../site.git"] : List Bytes),
            some (["w", "demo", "dist"] : Location))
      ∧ addressOf ["w"] "../site.git" = .place ["site.git"]
      ∧ addressOf ["w", "demo", "dist"] "../site.git" = .place ["w", "demo", "site.git"] :=
  ⟨eq_ok_of_toOption (by decide +kernel), eq_ok_of_toOption (by decide +kernel),
    by decide +kernel, by decide +kernel, by decide +kernel, by decide +kernel⟩

end PublishOnce
