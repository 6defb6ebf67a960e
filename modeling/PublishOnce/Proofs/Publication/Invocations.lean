/-
PublishOnce.Proofs.Publication.Invocations — what a whole run may ask of git.

Everything that git is told comes from the settings, and the settings have been
made absolute and have been checked before git is looked for. So what can be
said of the settings (`Fit`) holds of every argument and every directory, and
what remains are the shapes that commands have (`Permitted`). There are nine of
them, and in eight of them all is known from the settings.

The ninth is the commit, whose message ends in what git has printed. It is
reached only behind a comparison, and a comparison has no answer unless what was
printed had something to see in it; the white space around it has been cut off.
-/
import PublishOnce.Proofs.Publication.Preview
import PublishOnce.Proofs.Repository.Subject
import PublishOnce.Proofs.Settings.Precedence
import PublishOnce.Session

namespace PublishOnce

open Program (Shell Attempt Command Tried)
open World (SameGround)

/-! ## 1. Settings that are fit for git -/

/-- The directories and the path of the clone are absolute, and no name that git is given is blank. -/
structure Fit (settings : Settings) : Prop where
  root : settings.source.root.isAbsolute = true
  dir : settings.target.dir.isAbsolute = true
  clone : settings.clonePath.isAbsolute = true
  branch : Settings.IsWord settings.target.branch
  remote : Settings.IsVisible settings.target.remote
  name : Settings.IsVisible settings.commit.name

theorem isAbsolute_clonePath {settings : Settings}
    (h : settings.target.scratch.isAbsolute = true) : settings.clonePath.isAbsolute = true := by
  unfold Settings.clonePath clonePath
  exact Path.isAbsolute_join h _

/-- Loading gives nothing but settings that are fit. -/
theorem fit_of_loaded {G : Type} {world : World G} {cwd : Path} {asked : Option Path}
    {overrides : Overrides} {settings : Settings} (hcwd : cwd.isAbsolute = true)
    (h : Settings.loaded world cwd asked overrides = .ok settings) : Fit settings := by
  unfold Settings.loaded at h
  split at h
  · cases h
  next file hlocated =>
  split at h
  · cases h
  next own hown =>
  obtain ⟨hdiagnostics, rfl⟩ := Settings.checked_eq_ok_iff.mp h
  have hchosen := Settings.chosen_combine own world.home cwd file overrides
  have habsolute : ∀ override path,
      (Settings.chosenPath world.home cwd (Settings.baseOf cwd file) override path).isAbsolute = true :=
    fun _ _ => Settings.isAbsolute_chosenPath hcwd (Settings.isAbsolute_baseOf hcwd hlocated)
  obtain ⟨hremote, hbranch, hname⟩ := Settings.diagnostics_eq_nil_iff.mp hdiagnostics
  exact
    { root := by
        rw [hchosen.root]
        exact habsolute ..
      dir := by
        rw [hchosen.dir]
        exact habsolute ..
      clone := by
        refine isAbsolute_clonePath ?_
        rw [hchosen.scratch]
        exact habsolute ..
      branch := hbranch
      remote := hremote
      name := hname }

/-! ## 2. Commands that are permitted -/

/-- A text that is not empty and has no white space around it. -/
structure IsCut (text : String) : Prop where
  ne : text ≠ ""
  front : ∀ c ∈ text.toList.head?, Text.isBlank c = false
  back : ∀ c ∈ text.toList.getLast?, Text.isBlank c = false

/-- What git may be asked under some settings: a program, its arguments and a directory. -/
inductive Permitted (settings : Settings) : Bytes × List Bytes × Option Path → Prop
  | revision : Permitted settings
      ("git", ["rev-parse", "--short", "HEAD"], some settings.source.root)
  | clone : Permitted settings
      ("git", ["clone", "--bare", settings.target.remote, settings.clonePath.bytes], none)
  | init : Permitted settings ("git", ["init", "-b", settings.target.branch], some settings.target.dir)
  | userName : Permitted settings
      ("git", ["config", "user.name", settings.commit.name], some settings.target.dir)
  | userEmail : Permitted settings
      ("git", ["config", "user.email", settings.commit.email], some settings.target.dir)
  | stageAll : Permitted settings ("git", ["add", "-A"], some settings.target.dir)
  | commit {revision : String} (cut : IsCut revision) : Permitted settings
      ("git", ["commit", "-m", Bytes.ofString (settings.commit.messagePrefix ++ revision)],
        some settings.target.dir)
  | addRemote : Permitted settings
      ("git", ["remote", "add", "origin", settings.target.remote], some settings.target.dir)
  | push : Permitted settings
      ("git", ["push", "-f", "origin", settings.target.branch], some settings.target.dir)

section
variable {settings : Settings} {world : World Shell} {revision : String}

theorem Printed.isCut (h : Printed settings world revision) : IsCut revision := by
  obtain ⟨output, -, rfl, hne⟩ := h
  refine ⟨hne, fun c hc => ?_, fun c hc => ?_⟩
  · rw [Git.revisionIn, Text.trim, String.toList_ofList] at hc
    rcases Text.trimChars_cases (Text.Utf8.decodeLossy output.out).toList with hnil | ⟨first, _, hcons, hfirst⟩
    · rw [hnil] at hc
      cases hc
    · rw [hcons] at hc
      exact Option.some.inj hc ▸ hfirst
  · rw [Git.revisionIn, Text.trim, String.toList_ofList] at hc
    exact Bool.eq_false_iff.mpr (Text.isBlank_of_mem_getLast?_dropBlankEnd hc)

theorem permitted_of_mem_look {command : Command}
    (h : command ∈ [revisionCommand settings, cloneCommand settings]) :
    Permitted settings command.asked := by
  simp only [List.mem_cons, List.not_mem_nil, or_false] at h
  rcases h with rfl | rfl
  · exact .revision
  · exact .clone

theorem permitted_of_mem_course {command : Command} (hcut : IsCut revision)
    (h : command ∈ course settings revision) : Permitted settings command.asked := by
  simp only [course, publicationPlan, List.map_cons, List.map_nil, List.mem_cons, List.not_mem_nil,
    or_false] at h
  rcases h with rfl | rfl | rfl | rfl | rfl | rfl | rfl | rfl | rfl
  · exact .revision
  · exact .clone
  · exact .init
  · exact .userName
  · exact .userEmail
  · exact .stageAll
  · exact .commit hcut
  · exact .addRemote
  · exact .push

/-- From one world to another, git has been asked for what is permitted only. -/
def AsksPermitted (settings : Settings) (world world' : World Shell) : Prop :=
  ∃ attempts, world'.git.attempts = world.git.attempts ++ attempts
    ∧ ∀ attempt ∈ attempts, Permitted settings attempt.asked

theorem asksPermitted_of_git {world' : World Shell} (h : world'.git = world.git) :
    AsksPermitted settings world world' :=
  ⟨[], by rw [h, List.append_nil], fun _ hmem => absurd hmem List.not_mem_nil⟩

theorem asksPermitted_of_tried {world' : World Shell} {commands : List Command} {success : Bool}
    (htried : Tried world commands success world')
    (h : ∀ command ∈ commands, Permitted settings command.asked) :
    AsksPermitted settings world world' := by
  obtain ⟨attempts, hattempts, -, hasked, -⟩ := htried.recorded
  refine ⟨attempts, hattempts, fun attempt hmem => ?_⟩
  have hmem := List.mem_map_of_mem hmem (f := Attempt.asked)
  rw [hasked] at hmem
  obtain ⟨command, hcommand, hsame⟩ := List.mem_map.mp hmem
  exact hsame ▸ h command hcommand

/-! ## 3. Whole runs -/

theorem asksPermitted_status (settings : Settings) (world : World Shell) :
    AsksPermitted settings world (status settings world).2 := by
  obtain ⟨commands, success, htried, hbeginning⟩ := compare_tried settings world
  exact asksPermitted_of_tried (htried.leave (status_ground settings world).git) fun command hcommand =>
    permitted_of_mem_look (hbeginning.subset hcommand)

/-- A publication that goes beyond the look at the remote repository has a revision. -/
theorem asksPermitted_publish (settings : Settings) (world : World Shell) :
    AsksPermitted settings world (publish settings world).2 := by
  obtain ⟨revision, commands, success, htried, hbeginning, -, hdue, -⟩ :=
    (publish_ended settings world).tried
  refine asksPermitted_of_tried htried fun command hcommand => ?_
  by_cases hlong : 2 < commands.length
  · obtain ⟨⟨subject, seen, -⟩, -⟩ := hdue.mp hlong
    exact permitted_of_mem_course seen.printed.isCut (hbeginning.subset hcommand)
  · have hlook : commands <+: [revisionCommand settings, cloneCommand settings] :=
      List.prefix_of_prefix_length_le hbeginning ⟨_, rfl⟩ (by simpa using hlong)
    exact permitted_of_mem_look (hlook.subset hcommand)

theorem asksPermitted_perform (verb : CommandLine.Verb) (settings : Settings) (world : World Shell) :
    AsksPermitted settings world (Session.perform verb settings world).2 := by
  cases verb with
  | publish => exact asksPermitted_publish settings world
  | status => exact asksPermitted_status settings world

/-- Loading as a run does it. -/
def loading (line : CommandLine) (world : World Shell) : Except Failure Settings × World Shell :=
  Settings.load world.cwd.path line.config line.overrides { world with verbose := line.verbose }

theorem Git.locate_apply (world : World Shell) :
    Git.locate world =
      (if world.git.programs.contains Git.program then .ok () else .error .gitMissing, world) := by
  unfold Git.locate
  rw [Act.bind_apply, Act.get_apply]
  simp only
  cases world.git.programs.contains Git.program <;> rfl

/-- A run loads its settings, looks for git and does what it was asked to do. -/
theorem Session.act_apply (line : CommandLine) (world : World Shell) :
    Session.act line world =
      match loading line world with
      | (.error reason, world) => (.error reason, world)
      | (.ok settings, world) =>
        if world.git.programs.contains Git.program then
          ((Session.perform line.verb settings world).1.map (settings, ·),
            (Session.perform line.verb settings world).2)
        else (.error .gitMissing, world) := by
  unfold Session.act loading
  simp only [Act.bind_apply, Act.modify_apply, Act.get_apply]
  rcases Settings.load world.cwd.path line.config line.overrides
    { world with verbose := line.verbose } with ⟨_ | settings, loaded⟩
  · rfl
  · simp only [Git.locate_apply]
    by_cases hgit : loaded.git.programs.contains Git.program = true
    · simp only [if_pos hgit]
      rcases Session.perform line.verb settings loaded with ⟨_ | outcome, performed⟩ <;> rfl
    · simp only [if_neg hgit]

/-- What is loaded comes from the world as it is found, and leaves it so. -/
theorem loading_apply (line : CommandLine) (world : World Shell) :
    ∃ world', loading line world =
        (Settings.loaded world world.cwd.path line.config line.overrides, world')
      ∧ SameGround world' world := by
  obtain ⟨world', hload, hground⟩ := Settings.load_apply world.cwd.path line.config line.overrides
    { world with verbose := line.verbose }
  exact ⟨world', hload, hground.trans ⟨rfl, rfl, rfl, rfl⟩⟩

/-- A run asks git for nothing before its settings are loaded, and then only for what is permitted
under settings that are fit. Where there is no run, or where nothing is loaded, git and the file system
stay as they are. -/
theorem run_asks_permitted (words : List Bytes) (world : World Shell) :
    (∀ halt, CommandLine.parse words = .error halt → (Session.run words world).2 = world)
      ∧ ∀ line, CommandLine.parse words = .ok line →
          (loading line world).2.git = world.git
            ∧ (∀ reason, (loading line world).1 = .error reason →
                (Session.run words world).2.git = world.git
                  ∧ (Session.run words world).2.files = world.files)
            ∧ ∀ settings, (loading line world).1 = .ok settings → Fit settings
                ∧ ∃ attempts,
                    (Session.run words world).2.git.attempts = world.git.attempts ++ attempts
                      ∧ ∀ attempt ∈ attempts, Permitted settings attempt.asked := by
  constructor
  · intro halt hparse
    simp only [Session.run, hparse]
  intro line hparse
  obtain ⟨loaded, hloading, hground⟩ := loading_apply line world
  have hrun : (Session.run words world).2 = (Session.act line world).2 := by
    simp only [Session.run, hparse]
    rfl
  rw [hrun, Session.act_apply, hloading]
  refine ⟨hground.git, fun reason hfailed => ?_, fun settings hsettings => ?_⟩
  · simp only at hfailed
    simp only [hfailed]
    exact ⟨hground.git, hground.files⟩
  · simp only at hsettings
    simp only [hsettings]
    refine ⟨fit_of_loaded (Location.isAbsolute_path world.cwd) hsettings, ?_⟩
    split
    · obtain ⟨attempts, hattempts, hpermitted⟩ := asksPermitted_perform line.verb settings loaded
      exact ⟨attempts, hground.git ▸ hattempts, hpermitted⟩
    · exact asksPermitted_of_git hground.git

end

end PublishOnce
