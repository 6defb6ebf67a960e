/-
PublishOnce.Proofs.Verbosity — a verbose run says more and does nothing else.

Debug messages are said in the middle of everything: while the settings are
loaded, in front of every command, and when the clone is removed. That none of them
matters is a statement about two runs. `Muffled` relates the world of a run without
the flag to the world of a run with it. All is the same in both but the messages, and
what the first run has said is what the second one has said without the debug
messages.

An action is `Deaf` if it keeps two such worlds in step and ends alike in both.
Every way of building an action passes this on, so there is one short lemma for each
routine and no case of a run is looked at twice. The only places with something of
their own to show are those at which a routine looks at the world: it must look at
the ground alone (`Deaf.look`).
-/
import PublishOnce.Proofs.Git.Installed
import PublishOnce.Proofs.Publication.Preview
import PublishOnce.Proofs.Settings.Load
import PublishOnce.Session

namespace PublishOnce

open Program (Shell Command Output)
open World (SameGround)

variable {G α β : Type}

/-! ## 1. Two worlds -/

/-- The worlds of a run without the flag and of one with it, where both began with the same messages
in the journal. -/
structure Muffled (heard : List Message) (quiet loud : World G) : Prop where
  ground : SameGround quiet loud
  off : quiet.verbose = false
  on : loud.verbose = true
  notices : quiet.journal.notices = loud.journal.notices
  messages : ∃ said, loud.journal.messages = heard ++ said
    ∧ quiet.journal.messages = heard ++ said.filter (!·.debug)

namespace Muffled

variable {heard : List Message} {quiet loud quiet' loud' : World G}

/-- What happens on the ground happens alike if nothing is said. -/
theorem onGround (h : Muffled heard quiet loud) (hground : SameGround quiet' loud')
    (hquiet : quiet'.journal = quiet.journal ∧ quiet'.verbose = quiet.verbose)
    (hloud : loud'.journal = loud.journal ∧ loud'.verbose = loud.verbose) :
    Muffled heard quiet' loud' where
  ground := hground
  off := hquiet.2.trans h.off
  on := hloud.2.trans h.on
  notices := by rw [hquiet.1, hloud.1, h.notices]
  messages := by
    rw [hquiet.1, hloud.1]
    exact h.messages

theorem say (h : Muffled heard quiet loud) {message : Message} (hdebug : message.debug = false) :
    Muffled heard (quiet.say message) (loud.say message) where
  ground := ((World.sameGround_say ..).trans h.ground).trans (World.sameGround_say ..).symm
  off := h.off
  on := h.on
  notices := h.notices
  messages := by
    obtain ⟨said, hloud, hquiet⟩ := h.messages
    refine ⟨said ++ [message], ?_, ?_⟩
    · simp [World.say, Journal.say, hloud]
    · simp [World.say, Journal.say, hquiet, hdebug]

/-- Only the second run takes a debug message down. -/
theorem debug (h : Muffled heard quiet loud) (origin text : String) :
    Muffled heard (quiet.debug origin text) (loud.debug origin text) := by
  obtain ⟨said, hloud, hquiet⟩ := h.messages
  have hsilent : quiet.debug origin text = quiet := by simp [World.debug, h.off]
  have hspoken : loud.debug origin text = loud.say ⟨origin, text, true⟩ := by
    simp [World.debug, h.on]
  rw [hsilent, hspoken]
  exact
    { ground := h.ground.trans (World.sameGround_say ..).symm
      off := h.off
      on := h.on
      notices := h.notices
      messages := ⟨said ++ [⟨origin, text, true⟩], by simp [World.say, Journal.say, hloud],
        by simp [hquiet]⟩ }

theorem note (h : Muffled heard quiet loud) (text : String) :
    Muffled heard (quiet.note text) (loud.note text) where
  ground := ⟨h.ground.files, h.ground.cwd, h.ground.home, h.ground.git⟩
  off := h.off
  on := h.on
  notices := by simp [World.note, Journal.note, h.notices]
  messages := h.messages

theorem notes (h : Muffled heard quiet loud) (names : List String) :
    Muffled heard (names.foldl (fun world name => world.note ("- " ++ name)) quiet)
      (names.foldl (fun world name => world.note ("- " ++ name)) loud) := by
  induction names generalizing quiet loud with
  | nil => exact h
  | cons name names ih => exact ih (h.note _)

theorem removeClone (h : Muffled heard quiet loud) (path : Path) :
    Muffled heard (removeClone path quiet) (removeClone path loud) := by
  have hremoved : quiet.files.removeDir quiet.cwd path = loud.files.removeDir loud.cwd path := by
    rw [h.ground.files, h.ground.cwd]
  unfold PublishOnce.removeClone
  rw [hremoved]
  split
  · next files _ =>
    have hground : SameGround { quiet with files } { loud with files } :=
      ⟨rfl, h.ground.cwd, h.ground.home, h.ground.git⟩
    exact (h.onGround hground ⟨rfl, rfl⟩ ⟨rfl, rfl⟩).debug ..
  · exact h
  · exact h.say rfl

end Muffled

/-! ## 2. Actions that do not listen to the flag -/

/-- An action that keeps two worlds in step and has the same outcome in both. -/
structure Deaf (action : Act G α) : Prop where
  keeps {heard : List Message} {quiet loud : World G} (h : Muffled heard quiet loud) :
    (action quiet).1 = (action loud).1 ∧ Muffled heard (action quiet).2 (action loud).2

namespace Deaf

theorem pure (result : α) : Deaf (pure result : Act G α) := ⟨fun h => ⟨rfl, h⟩⟩

theorem throw (reason : Failure) : Deaf (throw reason : Act G α) := ⟨fun h => ⟨rfl, h⟩⟩

theorem log (origin text : String) : Deaf (Act.log origin text : Act G Unit) :=
  ⟨fun h => ⟨rfl, h.say rfl⟩⟩

theorem debug (origin text : String) : Deaf (Act.debug origin text : Act G Unit) :=
  ⟨fun h => ⟨rfl, h.debug origin text⟩⟩

theorem say {message : Message} (hdebug : message.debug = false) :
    Deaf (modify fun world : World G => world.say message) :=
  ⟨fun h => ⟨rfl, h.say hdebug⟩⟩

/-- Both runs go on with the same result, or both fail for the same reason. -/
theorem outcomes {action : Act G α} (haction : Deaf action) {heard : List Message}
    {quiet loud : World G} (h : Muffled heard quiet loud) :
    ∃ outcome quiet' loud', action quiet = (outcome, quiet') ∧ action loud = (outcome, loud')
      ∧ Muffled heard quiet' loud' := by
  obtain ⟨houtcome, hworlds⟩ := haction.keeps h
  exact ⟨(action quiet).1, (action quiet).2, (action loud).2, rfl, Prod.ext houtcome.symm rfl, hworlds⟩

theorem bind {action : Act G α} {next : α → Act G β} (haction : Deaf action)
    (hnext : ∀ result, Deaf (next result)) : Deaf (action >>= next) := by
  refine ⟨fun {heard quiet loud} h => ?_⟩
  obtain ⟨outcome, quiet', loud', hquiet, hloud, hworlds⟩ := haction.outcomes h
  rw [Act.bind_apply, Act.bind_apply, hquiet, hloud]
  cases outcome with
  | error reason => exact ⟨rfl, hworlds⟩
  | ok result => exact (hnext result).keeps hworlds

/-- What is done with a look at the world may depend on the ground. -/
theorem look {next : World G → Act G β}
    (hground : ∀ {one other : World G}, SameGround one other → next one = next other)
    (hnext : ∀ world, Deaf (next world)) : Deaf (get >>= next) := by
  refine ⟨fun {heard quiet loud} h => ?_⟩
  rw [Act.bind_apply, Act.bind_apply, Act.get_apply, Act.get_apply]
  simp only [hground h.ground]
  exact (hnext loud).keeps h

theorem tryCatch {action : Act G α} {handle : Failure → Act G α} (haction : Deaf action)
    (hhandle : ∀ reason, Deaf (handle reason)) : Deaf (tryCatch action handle) := by
  refine ⟨fun {heard quiet loud} h => ?_⟩
  obtain ⟨outcome, quiet', loud', hquiet, hloud, hworlds⟩ := haction.outcomes h
  rw [Act.tryCatch_apply, Act.tryCatch_apply, hquiet, hloud]
  cases outcome with
  | error reason => exact (hhandle reason).keeps hworlds
  | ok result => exact ⟨rfl, hworlds⟩

theorem during {action : Act G α} (haction : Deaf action) (activity : Activity) :
    Deaf (Act.during activity action) := by
  refine ⟨fun {heard quiet loud} h => ?_⟩
  obtain ⟨houtcome, hworlds⟩ := haction.keeps h
  rw [Act.during_apply, Act.during_apply]
  exact ⟨congrArg (Except.mapError _) houtcome, hworlds⟩

theorem thenAlways {action : Act G α} {change : World G → World G} (haction : Deaf action)
    (hchange : ∀ {heard : List Message} {quiet loud : World G}, Muffled heard quiet loud →
      Muffled heard (change quiet) (change loud)) : Deaf (Act.thenAlways action change) := by
  refine ⟨fun {heard quiet loud} h => ?_⟩
  obtain ⟨houtcome, hworlds⟩ := haction.keeps h
  rw [Act.thenAlways_apply, Act.thenAlways_apply]
  exact ⟨houtcome, hchange hworlds⟩

end Deaf

/-! ## 3. Settings -/

namespace Settings

theorem deaf_locate (cwd : Path) (asked : Option Path) : Deaf (locate cwd asked : Act G _) := by
  refine ⟨fun {heard quiet loud} h => ?_⟩
  rw [locate_apply, locate_apply]
  refine ⟨?_, h⟩
  unfold located
  rw [h.ground.files, h.ground.cwd, h.ground.home]

theorem deaf_readFile (path : Path) : Deaf (readFile path : Act G Settings) := by
  refine Deaf.look ?_ ?_
  · intro one other h
    rw [h.files, h.cwd]
  · intro world
    split
    · exact .throw _
    split
    · exact .throw _
    · next ignored _ =>
      split
      · refine (Deaf.log ..).bind fun _ => ?_
        have hnotes : Deaf (modify fun world : World G =>
            ignored.foldl (fun world name => world.note ("- " ++ name)) world) :=
          ⟨fun h => ⟨rfl, h.notes ignored⟩⟩
        exact hnotes.bind fun _ => .pure _
      · exact .pure _

theorem deaf_readSource (file : Option Path) : Deaf (readSource file : Act G Settings) := by
  cases file with
  | none => exact (Deaf.debug ..).bind fun _ => .pure _
  | some path => exact (Deaf.debug ..).bind fun _ => deaf_readFile path

theorem deaf_load (cwd : Path) (asked : Option Path) (overrides : Overrides) :
    Deaf (load cwd asked overrides : Act G Settings) := by
  refine (deaf_locate cwd asked).bind fun file => ?_
  refine (deaf_readSource file).bind fun own => ?_
  refine Deaf.look ?_ ?_
  · intro one other h
    rw [h.home]
  · intro world
    simp only
    split
    · exact Deaf.throw _
    · exact .pure _

end Settings

/-! ## 4. Commands -/

/-- What is repeated of a command is no debug message. -/
theorem Program.debug_of_successMessage? {chatter : Program.Chatter} {name : String} {output : Output}
    {message : Message} (h : Command.successMessage? chatter name output = some message) :
    message.debug = false := by
  unfold Command.successMessage? Program.Chatter.message? at h
  split at h
  · cases h
  · exact Option.some.inj h ▸ rfl

/-- A command says its arguments in front, if that is wanted, and repeats what is worth it behind. -/
theorem Program.Command.deaf_run (command : Command) : Deaf command.run := by
  refine ⟨fun {heard quiet loud} h => ?_⟩
  have hstart : command.start quiet = command.start loud := Command.start_congr command h.ground
  have hanswer : quiet.git.nextAnswer.1 = loud.git.nextAnswer.1 := by rw [h.ground.git]
  have hannounced : Muffled heard (command.announced quiet) (command.announced loud) := h.debug ..
  rw [Command.run_apply, Command.run_apply, hstart, hanswer]
  cases command.start loud with
  | error reason =>
    have hground := Command.refused_congr command reason hannounced.ground
    exact ⟨rfl, hannounced.onGround hground ⟨rfl, rfl⟩ ⟨rfl, rfl⟩⟩
  | ok place =>
    have hground := Command.answered_congr command place hannounced.ground
    have hanswered := hannounced.onGround hground ⟨rfl, rfl⟩ ⟨rfl, rfl⟩
    simp only
    cases Command.judge command.name loud.git.nextAnswer.1 with
    | error reason => exact ⟨rfl, hanswered⟩
    | ok output =>
      refine ⟨rfl, ?_⟩
      simp only [Command.repeated]
      cases hmessage : Command.successMessage? command.chatter command.name output with
      | none => exact hanswered
      | some message => exact hanswered.say (Program.debug_of_successMessage? hmessage)

/-! ## 5. Git -/

/-- A git that does not listen to the flag either. -/
class DeafGit (G : Type) [Git G] : Prop where
  shortHead (repo : Path) : Deaf (Git.shortHead repo : Act G String)
  cloneBare (remote : String) (into : Path) : Deaf (Git.cloneBare remote into : Act G Unit)
  lastSubject (bare : Path) : Deaf (Git.lastSubject bare : Act G (Option String))
  run (dir : Path) (args : List String) : Deaf (Git.run dir args : Act G Unit)

namespace Git

theorem deaf_locate : Deaf locate := by
  refine Deaf.look ?_ ?_
  · intro one other h
    rw [h.git]
  · intro world
    split
    · exact .throw _
    · exact .pure _

theorem deaf_shortHead (repo : Path) : Deaf (installedShortHead repo) := by
  refine ((Command.deaf_run _).during _).bind fun output => ?_
  simp only
  split
  · exact (Deaf.throw _).bind fun _ => .pure _
  · exact .pure _

theorem deaf_cloneBare (remote : String) (into : Path) : Deaf (installedCloneBare remote into) :=
  ((Command.deaf_run _).during _).bind fun _ => .pure _

theorem deaf_lastSubject (bare : Path) : Deaf (installedLastSubject bare) := by
  refine ⟨fun {heard quiet loud} h => ?_⟩
  rw [installedLastSubject_apply, installedLastSubject_apply, h.ground.files, h.ground.cwd]
  exact ⟨rfl, h⟩

theorem deaf_run (dir : Path) (args : List String) : Deaf (installedRun dir args) :=
  (Command.deaf_run _).bind fun _ => .pure _

end Git

instance : DeafGit Shell where
  shortHead := Git.deaf_shortHead
  cloneBare := Git.deaf_cloneBare
  lastSubject := Git.deaf_lastSubject
  run := Git.deaf_run

/-! ## 6. Publications -/

section
variable [Git G] [DeafGit G]

theorem deaf_remoteSubject (remote : String) (scratch : Path) :
    Deaf (remoteSubject remote scratch : Act G (Option String)) := by
  have hclone : Deaf (Git.cloneBare remote (clonePath remote scratch) >>= fun _ =>
      Git.lastSubject (clonePath remote scratch) : Act G (Option String)) :=
    (DeafGit.cloneBare ..).bind fun _ => DeafGit.lastSubject _
  have hlook := hclone.thenAlways fun h => h.removeClone (clonePath remote scratch)
  refine Deaf.look ?_ ?_
  · intro one other h
    rw [h.files, h.cwd]
  · intro world
    split
    · exact (Deaf.throw _).bind fun _ => hlook
    · exact hlook

theorem deaf_compare (settings : Settings) : Deaf (compare settings : Act G Comparison) := by
  refine (DeafGit.shortHead _).bind fun revision => ?_
  refine (Deaf.log ..).bind fun _ => ?_
  exact (deaf_remoteSubject ..).bind fun _ => .pure _

theorem deaf_status (settings : Settings) : Deaf (status settings : Act G Outcome) := by
  refine (deaf_compare settings).bind fun comparison => ?_
  simp only
  split
  · exact (Deaf.log ..).bind fun _ => .pure _
  · split
    · exact (Deaf.log ..).bind fun _ => .pure _
    · exact (Deaf.log ..).bind fun _ => .pure _

theorem deaf_runStep (dir : Path) (step : Step) : Deaf (runStep dir step : Act G Unit) := by
  refine (Deaf.tryCatch (DeafGit.run ..) fun reason => ?_).bind fun _ => Deaf.say rfl
  exact (Deaf.say rfl).bind fun _ => .throw _

theorem deaf_runSteps (dir : Path) (steps : List Step) : Deaf (runSteps dir steps : Act G Unit) := by
  induction steps with
  | nil => exact .pure _
  | cons step rest ih => exact (deaf_runStep dir step).bind fun _ => ih

theorem deaf_pushOutput (settings : Settings) (message : String) :
    Deaf (pushOutput settings message : Act G Unit) := by
  refine Deaf.look ?_ ?_
  · intro one other h
    rw [h.files, h.cwd]
  · intro world
    split
    · exact (Deaf.throw _).bind fun _ => deaf_runSteps ..
    · exact deaf_runSteps ..

theorem deaf_publish (settings : Settings) : Deaf (publish settings : Act G Outcome) := by
  refine (deaf_compare settings).bind fun comparison => ?_
  split
  · exact (Deaf.log ..).bind fun _ => .pure _
  · refine (Deaf.log ..).bind fun _ => ?_
    exact (deaf_pushOutput ..).bind fun _ => .pure _

end

/-! ## 7. Whole runs -/

theorem Session.deaf_perform (verb : CommandLine.Verb) (settings : Settings) :
    Deaf (Session.perform verb settings) := by
  cases verb with
  | publish => exact deaf_publish settings
  | status => exact deaf_status settings

/-- What a run does once the flag has been set. -/
def Session.work (line : CommandLine) : Act Shell (Settings × Outcome) := do
  let world ← get
  let settings ← Settings.load world.cwd.path line.config line.overrides
  Git.locate
  let outcome ← Session.perform line.verb settings
  return (settings, outcome)

theorem Session.act_eq (line : CommandLine) (verbose : Bool) (world : World Shell) :
    Session.act { line with verbose } world = Session.work line { world with verbose } := by
  unfold Session.act
  rw [Act.bind_apply, Act.modify_apply]
  rfl

theorem Session.deaf_work (line : CommandLine) : Deaf (Session.work line) := by
  refine Deaf.look ?_ ?_
  · intro one other h
    rw [h.cwd]
  · intro world
    refine (Settings.deaf_load ..).bind fun settings => ?_
    refine Git.deaf_locate.bind fun _ => ?_
    exact (Session.deaf_perform ..).bind fun _ => .pure _

/-- Two runs of one command line in one world, without the verbose flag and with it, come to the same
outcome and the same end. They leave the same files, have asked git for the same in the same places,
and write the same to the error output. What the first has said is what the second has said without
the debug messages. -/
theorem verbose_run_adds_messages (line : CommandLine) (world : World Shell) :
    ∃ said : List Message,
      let quiet := Session.act { line with verbose := false } world
      let loud := Session.act { line with verbose := true } world
      quiet.1 = loud.1
        ∧ SameGround quiet.2 loud.2
        ∧ (Session.ending quiet.1 quiet.2).code = (Session.ending loud.1 loud.2).code
        ∧ (Session.ending quiet.1 quiet.2).err = (Session.ending loud.1 loud.2).err
        ∧ loud.2.journal.messages = world.journal.messages ++ said
        ∧ quiet.2.journal.messages = world.journal.messages ++ said.filter (!·.debug) := by
  have hstart : Muffled world.journal.messages { world with verbose := false }
      { world with verbose := true } :=
    { ground := ⟨rfl, rfl, rfl, rfl⟩
      off := rfl
      on := rfl
      notices := rfl
      messages := ⟨[], by simp, by simp⟩ }
  obtain ⟨houtcome, hworlds⟩ := (Session.deaf_work line).keeps hstart
  rw [← Session.act_eq, ← Session.act_eq] at houtcome hworlds
  obtain ⟨said, hloud, hquiet⟩ := hworlds.messages
  have herr : (Session.act { line with verbose := false } world).2.journal.err =
      (Session.act { line with verbose := true } world).2.journal.err := by
    unfold Journal.err
    rw [hworlds.notices]
  refine ⟨said, houtcome, hworlds.ground, ?_, ?_, hloud, hquiet⟩
  · rw [houtcome]
    cases (Session.act { line with verbose := true } world).1 <;> rfl
  · rw [houtcome]
    cases (Session.act { line with verbose := true } world).1 with
    | ok result => exact herr
    | error reason => exact congrArg (· ++ reason.report) herr

end PublishOnce
