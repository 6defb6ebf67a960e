/-
PublishOnce.Proofs.Publication.Transient — the clone that is gone again.

To see what a remote repository holds, it is cloned, and the clone is removed
again. `look_leaves_no_trace` says what this comes to for the files, whatever
git is and however far it gets: an occupied place is not touched, a clone that
was made is gone, and elsewhere nothing is new but directories that lead to it.
What it takes of git is `ClonesThere`, and the git of a shell keeps to that
(`clonesThere_shell`).

A place counts as occupied if the path leads there, which is less than that
something stands there. A path that goes up from a missing directory leads
nowhere, until git makes the directory. Then it leads to what has been there all
the time, and this is removed in place of a clone (`look_through_missing`). A
path that never goes up is safe.
-/
import PublishOnce.Proofs.Publication.CloneName
import PublishOnce.Proofs.Publication.Fetched
import PublishOnce.Proofs.Publication.Preview

namespace PublishOnce

open FileTree (SameBeside)
open Program (Shell Command)
open Repository (Layout)
open World (SameGround)

/-! ## 1. A look at the remote repository -/

section
variable {G : Type} [Git G] {settings : Settings} {world : World G}

/-- Cloning the remote repository and reading its subject, before anything is removed. -/
def cloneAndRead (settings : Settings) : Act G (Option String) :=
  Git.cloneBare settings.target.remote settings.clonePath >>= fun _ =>
    Git.lastSubject settings.clonePath

/-- The look of a comparison at the remote repository. -/
def look (settings : Settings) : Act G (Option String) :=
  remoteSubject settings.target.remote settings.target.scratch

theorem look_of_occupied (h : world.files.pathExists world.cwd settings.clonePath = true) :
    look settings world = (.error (.cloneDirOccupied settings.clonePath), world) := by
  unfold Settings.clonePath at *
  unfold look remoteSubject
  simp only [Act.bind_apply, Act.get_apply]
  rw [if_pos h, Act.bind_apply, Act.throw_apply]

theorem look_of_free (h : world.files.pathExists world.cwd settings.clonePath = false) :
    look settings world =
      ((cloneAndRead settings world).1,
        removeClone settings.clonePath (cloneAndRead settings world).2) := by
  unfold Settings.clonePath at *
  unfold look remoteSubject
  simp only [Act.bind_apply, Act.get_apply]
  rw [if_neg (by rw [Bool.not_eq_true]; exact h)]
  rfl

/-- What git may do to the files while it makes a clone at a path and reads it. At the path it leaves
a directory or nothing at all, however far it came with it, and beside it the directories that were
missing on the way there. -/
structure ClonesThere (path : Path) (world cloned : World G) : Prop where
  cwd : cloned.cwd = world.cwd
  beside : SameBeside world.cwd path world.files cloned.files
  there : cloned.files.LeadsToDir world.cwd path
    ∨ ∀ other, path.place world.cwd <+: other →
        cloned.files.get? other = world.files.get? other

variable (hfree : world.files.pathExists world.cwd settings.clonePath = false)
  (hclones : ClonesThere settings.clonePath world (cloneAndRead settings world).2)
include hfree hclones

/-- The clone is gone: at its place and below it there is nothing. -/
theorem voidAt_look
    (hmade : (cloneAndRead settings world).2.files.LeadsToDir world.cwd settings.clonePath) :
    (look settings world).2.files.VoidAt (settings.clonePath.place world.cwd) := by
  rw [look_of_free hfree]
  simp only
  rw [← hclones.cwd] at hmade ⊢
  rw [removeClone_of_leadsToDir hmade]
  exact FileTree.voidAt_removeAt place_clonePath_ne_nil

/-- Where there was no clone to remove, nothing has been removed. -/
theorem look_of_unmade
    (hmade : ¬ (cloneAndRead settings world).2.files.LeadsToDir world.cwd settings.clonePath) :
    ∀ other, settings.clonePath.place world.cwd <+: other →
      (look settings world).2.files.get? other = world.files.get? other := by
  intro other hother
  rw [look_of_free hfree]
  simp only
  rw [removeClone_of_not_leadsToDir (by rw [hclones.cwd]; exact hmade)]
  exact hclones.there.resolve_left hmade other hother

theorem sameBeside_look :
    SameBeside world.cwd settings.clonePath world.files (look settings world).2.files := by
  intro other hother
  have hsame : (look settings world).2.files.get? other =
      (cloneAndRead settings world).2.files.get? other := by
    rw [look_of_free hfree]
    simp only
    by_cases hmade : (cloneAndRead settings world).2.files.LeadsToDir
        (cloneAndRead settings world).2.cwd settings.clonePath
    · have hne : settings.clonePath.place world.cwd ≠ [] := place_clonePath_ne_nil
      rw [removeClone_of_leadsToDir hmade, hclones.cwd, FileTree.get?_removeAt hne,
        if_neg hother]
    · rw [removeClone_of_not_leadsToDir hmade]
  rw [hsame]
  exact hclones.beside other hother

/-- Everything that was there before is still there, unless git came to write on top of it. -/
theorem kept_look_iff :
    world.files.Kept (look settings world).2.files ↔
      world.files.VoidAt (settings.clonePath.place world.cwd)
        ∨ ¬ (cloneAndRead settings world).2.files.LeadsToDir world.cwd settings.clonePath := by
  constructor
  · intro hkept
    refine Classical.or_iff_not_imp_right.mpr fun hmade other hother => ?_
    have hgone := voidAt_look hfree hclones (Classical.not_not.mp hmade) other hother
    cases hentry : world.files.get? other with
    | none => rfl
    | some entry =>
      rw [hkept other entry hentry] at hgone
      cases hgone
  · intro hfate other entry hentry
    by_cases hother : settings.clonePath.place world.cwd <+: other
    · rcases hfate with hvoid | hmade
      · rw [hvoid other hother] at hentry
        cases hentry
      · rw [look_of_unmade hfree hclones hmade other hother, hentry]
    · exact (sameBeside_look hfree hclones).get?_eq_some hother hentry

end

/-! ## 2. The steps -/

section
variable {G : Type} [Git G] {dir : Path} {steps : List Step} {world : World G} {place : Location}

/-- In the course of running steps from a world, a step is started in another world. -/
def Starts (dir : Path) (steps : List Step) (world : World G) (step : Step) (start : World G) :
    Prop :=
  ∃ done rest, steps = done ++ step :: rest ∧ runSteps dir done world = (.ok (), start)

theorem runStep_of_ok {step : Step} {left : World G}
    (h : runStep dir step world = (.ok (), left)) :
    SameGround left ((Git.run dir step.args : Act G Unit) world).2 := by
  rw [runStep_eq] at h
  rcases hrun : (Git.run dir step.args : Act G Unit) world with ⟨cause | _, ran⟩
  · simp only [hrun] at h
    cases h
  · simp only [hrun] at h
    cases h
    exact World.sameGround_say ..

theorem runSteps_concat {step : Step} {left : World G} :
    runSteps dir (steps ++ [step]) world = (.ok (), left) ↔
      ∃ start, runSteps dir steps world = (.ok (), start)
        ∧ runStep dir step start = (.ok (), left) := by
  induction steps generalizing world with
  | nil =>
    have hone : runSteps dir [step] world = runStep dir step world := by
      rw [runSteps, Act.bind_apply]
      rcases runStep dir step world with ⟨_ | _, middle⟩ <;> rfl
    rw [List.nil_append, hone]
    exact ⟨fun h => ⟨world, rfl, h⟩, fun ⟨start, hstart, h⟩ => by cases hstart; exact h⟩
  | cons first rest ih =>
    rw [List.cons_append, runSteps, runSteps, Act.bind_apply, Act.bind_apply]
    rcases runStep dir first world with ⟨_ | _, middle⟩
    · constructor
      · intro h
        cases h
      · rintro ⟨_, h, -⟩
        cases h
    · exact ih

/-- If no step makes anything at a place, every step is started with nothing there. -/
theorem Starts.voidAt {step : Step} {start : World G} (hvoid : world.files.VoidAt place)
    (hkept : ∀ step start, Starts dir steps world step start → start.files.VoidAt place →
      ((Git.run dir step.args : Act G Unit) start).2.files.VoidAt place)
    (h : Starts dir steps world step start) : start.files.VoidAt place := by
  obtain ⟨done, rest, hsteps, hdone⟩ := h
  induction done using List.reverseRecOn generalizing step rest start with
  | nil =>
    rw [runSteps, Act.pure_apply, Prod.mk.injEq] at hdone
    exact hdone.2 ▸ hvoid
  | append_singleton done last ih =>
    obtain ⟨before, hbefore, hlast⟩ := runSteps_concat.mp hdone
    have hsteps' : steps = done ++ last :: step :: rest := by
      rw [hsteps, List.append_assoc, List.singleton_append]
    have hhere := ih _ hsteps' hbefore
    rw [(runStep_of_ok hlast).files]
    exact hkept last before ⟨done, _, hsteps', hbefore⟩ hhere

end

/-! ## 3. No trace -/

section
variable {G : Type} [Git G] {settings : Settings} {start world : World G}

/-- The world in which a comparison looks at the remote repository, if this is the revision. -/
def lookingWorld (settings : Settings) (start : World G) (revision : String) : World G :=
  ((Git.shortHead settings.source.root : Act G String) start).2.say
    ⟨"deploy", "Current repository hash: " ++ revision, false⟩

/-- A comparison that is started in one world comes to look at the remote repository in another. -/
def ComesToLook (settings : Settings) (start world : World G) : Prop :=
  ∃ revision, ((Git.shortHead settings.source.root : Act G String) start).1 = .ok revision
    ∧ world = lookingWorld settings start revision

/-- What a comparison leaves is what its look at the remote repository leaves. -/
theorem ComesToLook.compare_snd (h : ComesToLook settings start world) :
    (compare settings start).2 = (look settings world).2 := by
  obtain ⟨revision, hrevision, hworld⟩ := h
  unfold lookingWorld at hworld
  unfold compare
  rw [Act.bind_apply]
  rcases hasked : (Git.shortHead settings.source.root : Act G String) start with ⟨_ | found, asked⟩
  · rw [hasked] at hrevision
    cases hrevision
  · rw [hasked] at hrevision hworld
    cases hrevision
    simp only [Act.bind_apply, Act.log_apply]
    rw [← hworld]
    unfold look
    rcases remoteSubject settings.target.remote settings.target.scratch world with ⟨_ | _, left⟩ <;>
      rfl

/-- What is left of a clone that was made at a free path. -/
structure LeavesNoTrace (settings : Settings) (world : World G) : Prop where
  /-- The look ends as cloning and reading did. -/
  outcome : (look settings world).1 = (cloneAndRead settings world).1
  /-- Beside the place of the clone only directories on the way there are new. -/
  beside : SameBeside world.cwd settings.clonePath world.files (look settings world).2.files
  /-- A clone that was made is gone with all that is below it, and if none was made, nothing is. -/
  gone : ((cloneAndRead settings world).2.files.LeadsToDir world.cwd settings.clonePath →
      (look settings world).2.files.VoidAt (settings.clonePath.place world.cwd))
    ∧ (¬ (cloneAndRead settings world).2.files.LeadsToDir world.cwd settings.clonePath →
      ∀ other, settings.clonePath.place world.cwd <+: other →
        (look settings world).2.files.get? other = world.files.get? other)
  /-- Nothing that was there before is lost, unless there was something in the place of the clone,
  and git made the path lead there. -/
  kept : world.files.Kept (look settings world).2.files ↔
    world.files.VoidAt (settings.clonePath.place world.cwd)
      ∨ ¬ (cloneAndRead settings world).2.files.LeadsToDir world.cwd settings.clonePath
  /-- This cannot happen if the scratch directory is not reached by going up. -/
  forward : world.files.IsRooted → settings.target.scratch.IsForward →
    world.files.Kept (look settings world).2.files
      ∧ (look settings world).2.files.VoidAt (settings.clonePath.place world.cwd)
  /-- A publication that goes on from here starts no step while the clone exists, wherever the
  directory to be published is. -/
  steps (start : World G) (comparison : Comparison) :
    ComesToLook settings start world → (compare settings start).1 = .ok comparison →
      comparison.isCurrent = false →
      (look settings world).2.files.VoidAt (settings.clonePath.place world.cwd) →
      ∃ said, SameGround said (look settings world).2
        ∧ publish settings start =
            ((pushOutput settings comparison.expected said).1.map fun _ => .published,
              (pushOutput settings comparison.expected said).2)
        ∧ ((∀ step begun, Starts settings.target.dir
              (publicationPlan settings comparison.expected) said step begun →
            begun.files.VoidAt (settings.clonePath.place world.cwd) →
            ((Git.run settings.target.dir step.args : Act G Unit) begun).2.files.VoidAt
              (settings.clonePath.place world.cwd)) →
          ∀ step begun, Starts settings.target.dir
              (publicationPlan settings comparison.expected) said step begun →
            begun.files.VoidAt (settings.clonePath.place world.cwd))

/-- A look at the remote repository touches nothing that is in the place of its clone. If there is
nothing and git makes a clone there, the clone leaves no trace, however far git came with it and
however the look ends. -/
theorem look_leaves_no_trace (settings : Settings) (world : World G) :
    (world.files.pathExists world.cwd settings.clonePath = true →
        look settings world = (.error (.cloneDirOccupied settings.clonePath), world))
      ∧ (world.files.pathExists world.cwd settings.clonePath = false →
        ClonesThere settings.clonePath world (cloneAndRead settings world).2 →
        LeavesNoTrace settings world) := by
  refine ⟨look_of_occupied, fun hfree hclones => ?_⟩
  have hgone := voidAt_look hfree hclones
  have hunmade := look_of_unmade hfree hclones
  have hkept := kept_look_iff hfree hclones
  refine
    { outcome := by rw [look_of_free hfree]
      beside := sameBeside_look hfree hclones
      gone := ⟨hgone, hunmade⟩
      kept := hkept
      forward := fun hrooted hforward => ?_
      steps := fun start comparison hlook hcompare hstale hvoid => ?_ }
  · have hvoid : world.files.VoidAt (settings.clonePath.place world.cwd) :=
      voidAt_clonePath hrooted hforward hfree
    refine ⟨hkept.mpr (.inl hvoid), ?_⟩
    by_cases hmade : (cloneAndRead settings world).2.files.LeadsToDir world.cwd settings.clonePath
    · exact hgone hmade
    · exact fun other hother => (hunmade hmade other hother).trans (hvoid other hother)
  · obtain ⟨said, hground, hpublish⟩ := publish_of_pending hcompare hstale
    have hsaid : SameGround said (look settings world).2 := by
      rw [← hlook.compare_snd]
      exact hground.trans (status_ground settings start)
    have hbefore : said.files.VoidAt (settings.clonePath.place world.cwd) := by
      rw [hsaid.files]
      exact hvoid
    exact ⟨said, hsaid, hpublish, fun hleft step begun hbegun => hbegun.voidAt hbefore hleft⟩

end

/-! ## 4. The installed git -/

section
variable {settings : Settings} {world : World Shell}

theorem leave_of_getLast? (answer : Program.Answer) (files : FileTree) (place : Location)
    {args : List Bytes} {path : Path} (h : args.getLast? = some path.bytes) :
    answer.leave files place args =
      match answer.leaves with
      | some branch => files.plant place path branch
      | none => files := by
  unfold Program.Answer.leave
  rw [h]
  cases answer.leaves <;> rfl

theorem getLast?_cloneCommand :
    (cloneCommand settings).args.getLast? = some settings.clonePath.bytes := by
  unfold cloneCommand Git.command
  generalize settings.clonePath.bytes = path
  rfl

/-- Whatever the git of a shell leaves at the path of a clone, it does no more than that. What it
leaves must not cover the directories that lead there. -/
theorem clonesThere_shell
    (hclear : ∀ branch ∈ (world.git.answers.headD {}).leaves, ∀ row ∈ branch.entries,
      settings.clonePath.place world.cwd ++ row.1 ∉ settings.clonePath.way world.cwd) :
    ClonesThere settings.clonePath world (cloneAndRead settings world).2 := by
  have hran : (cloneAndRead settings world).2 = ((cloneCommand settings).run world).2 := by
    unfold cloneAndRead
    rw [cloneBare_lastSubject_apply]
    unfold cloneCommand
    split <;> simp_all
  rw [hran]
  have hcwd := (cloneCommand settings).run_cwd world
  have hfiles := (cloneCommand settings).run_files world
  have huntouched : ((cloneCommand settings).run world).2.files = world.files →
      ClonesThere settings.clonePath world ((cloneCommand settings).run world).2 := fun hsame =>
    ⟨hcwd, fun other _ => .inl (by rw [hsame]), .inr fun other _ => by rw [hsame]⟩
  cases hstart : (cloneCommand settings).start world with
  | error reason => exact huntouched (by rw [hfiles, hstart])
  | ok place =>
    have hplace : place = world.cwd := Command.place_of_start hstart
    rw [hstart] at hfiles
    simp only [hplace, leave_of_getLast? _ _ _ getLast?_cloneCommand] at hfiles
    cases hleaves : (world.git.answers.headD {}).leaves with
    | none => exact huntouched (by rw [hfiles, hleaves])
    | some branch =>
      have hplant : ((cloneCommand settings).run world).2.files =
          world.files.plant world.cwd settings.clonePath branch := by
        rw [hfiles, hleaves]
      have hne : settings.clonePath.place world.cwd ≠ [] := place_clonePath_ne_nil
      have hbytes : settings.clonePath.bytes.isEmpty = false := isEmpty_bytes_clonePath
      rcases FileTree.plant_spec hne hbytes (hclear branch hleaves) with
        hsame | ⟨hleads, hbeside⟩
      · exact huntouched (hplant.trans hsame)
      · rw [← hplant] at hleads hbeside
        exact ⟨hcwd, hbeside, .inl hleads⟩

/-- A git whose answers are used up changes no files. -/
theorem files_run_of_answers_eq_nil {dir : Path} {args : List String}
    (h : world.git.answers = []) :
    ((Git.run dir args : Act Shell Unit) world).2.files = world.files := by
  rw [Git.run_shell_snd, Command.run_files, h]
  cases (Git.command (args.map Bytes.ofString) dir).start world <;> rfl

theorem Starts.answers_eq_nil {dir : Path} {steps : List Step} {step : Step} {begun : World Shell}
    (h : Starts dir steps world step begun) (hnone : world.git.answers = []) :
    begun.git.answers = [] := by
  obtain ⟨done, rest, -, hdone⟩ := h
  obtain ⟨tried, -, htried, -⟩ := tried_runSteps dir done world
  obtain ⟨attempts, -, hanswers, -⟩ := htried.recorded
  rw [hdone, hnone, List.drop_nil] at hanswers
  exact hanswers

end

/-! ## 5. Two places for a clone -/

/-- Settings under which the clone is made in the directory that is published. -/
def nestedSettings : Settings := { target := { scratch := "demo/dist" } }

def nestedWorld : World Shell :=
  { cloningWorld "abc1234\n" (.unborn "main") with
    files :=
      ⟨[(["demo"], .dir), (["demo", "dist"], .dir),
        (["demo", "dist", "index.html"], .file (Bytes.ofString "<p>"))]⟩ }

/-- The general statement for a clone in the directory that is published: it is gone before the first
step, nothing else is, and no step finds it. -/
theorem look_leaves_no_trace_nested :
    ∃ said, publish nestedSettings nestedWorld =
          ((pushOutput nestedSettings "Update to abc1234" said).1.map fun _ => .published,
            (pushOutput nestedSettings "Update to abc1234" said).2)
      ∧ nestedWorld.files.Kept said.files
      ∧ ∀ step begun, Starts "demo/dist"
          (publicationPlan nestedSettings "Update to abc1234") said step begun →
          begun.files.VoidAt (["demo", "dist", "math-demo.git"] : Location) := by
  let looking := lookingWorld nestedSettings nestedWorld "abc1234"
  have hlook : ComesToLook nestedSettings nestedWorld looking :=
    ⟨"abc1234", eq_ok_of_toOption (by decide +kernel), rfl⟩
  have hcompare : (compare nestedSettings nestedWorld).1 =
      .ok ⟨"abc1234", "Update to abc1234", none⟩ := eq_ok_of_toOption (by decide +kernel)
  have hfree : looking.files.pathExists looking.cwd nestedSettings.clonePath = false := by
    decide +kernel
  have hleaves : (looking.git.answers.headD {}).leaves = some (Layout.unborn "main").tree := by
    decide +kernel
  have hforward : nestedSettings.target.scratch.IsForward := by decide +kernel
  have hbelow : ∀ row ∈ (Layout.unborn "main").tree.entries, row.1 ≠ [] := by decide +kernel
  have hclear : ∀ row ∈ (Layout.unborn "main").tree.entries,
      nestedSettings.clonePath.place looking.cwd ++ row.1
        ∉ nestedSettings.clonePath.way looking.cwd := fun row hrow =>
    (isForward_clonePath hforward).not_mem_way (hbelow row hrow)
  have hclones : ClonesThere nestedSettings.clonePath looking
      (cloneAndRead nestedSettings looking).2 := clonesThere_shell fun branch hbranch =>
    Option.some.inj (hleaves.symm.trans hbranch) ▸ hclear
  have htrace := (look_leaves_no_trace nestedSettings looking).2 hfree hclones
  have hrooted : looking.files.IsRooted := FileTree.isRooted_of_entries (by decide +kernel)
  obtain ⟨hkept, hvoid⟩ := htrace.forward hrooted hforward
  obtain ⟨said, hsaid, hpublish, hsteps⟩ :=
    htrace.steps nestedWorld _ hlook hcompare (by decide +kernel) hvoid
  have hplace : nestedSettings.clonePath.place looking.cwd =
      (["demo", "dist", "math-demo.git"] : Location) := by decide +kernel
  have hanswers : said.git.answers = [] := by
    rw [hsaid.git, ← List.isEmpty_iff]
    decide +kernel
  refine ⟨said, hpublish, ?_, ?_⟩
  · have hsame : nestedWorld.files = looking.files := by decide +kernel
    rw [hsame, hsaid.files]
    exact hkept
  · rw [← hplace]
    refine hsteps fun step begun hbegun hhere => ?_
    rw [files_run_of_answers_eq_nil (hbegun.answers_eq_nil hanswers)]
    exact hhere

/-- Settings under which the scratch directory is reached by going up from a directory that is
missing. -/
def detourSettings : Settings := { target := { scratch := "missing/.." } }

def detourWorld : World Shell where
  files :=
    ⟨[(["math-demo.git"], .dir),
      (["math-demo.git", "keep.txt"], .file (Bytes.ofString "mine"))]⟩
  git := { programs := ["git"], answers := [{ leaves := some (Layout.unborn "main").tree }] }

/-- A directory in the place of the clone is not seen as long as the path does not lead there. Git
makes the missing directory, and then the path does: a look at the remote repository removes what was
there before. -/
theorem look_through_missing :
    detourWorld.files.IsRooted
      ∧ detourSettings.clonePath.place detourWorld.cwd = (["math-demo.git"] : Location)
      ∧ detourWorld.files.get? ["math-demo.git"] = some .dir
      ∧ detourWorld.files.get? ["math-demo.git", "keep.txt"] =
          some (.file (Bytes.ofString "mine"))
      ∧ ClonesThere detourSettings.clonePath detourWorld
          (cloneAndRead detourSettings detourWorld).2
      ∧ (look detourSettings detourWorld).1 = .ok none
      ∧ (look detourSettings detourWorld).2.files.get? ["math-demo.git", "keep.txt"] = none := by
  have hleaves : (detourWorld.git.answers.headD {}).leaves = some (Layout.unborn "main").tree :=
    rfl
  have hclear : ∀ row ∈ (Layout.unborn "main").tree.entries,
      detourSettings.clonePath.place detourWorld.cwd ++ row.1
        ∉ detourSettings.clonePath.way detourWorld.cwd := by
    decide +kernel
  refine ⟨FileTree.isRooted_of_entries (by decide +kernel), by decide +kernel, by decide +kernel,
    by decide +kernel, clonesThere_shell fun branch hbranch => ?_,
    eq_ok_of_toOption (by decide +kernel), by decide +kernel⟩
  exact Option.some.inj (hleaves.symm.trans hbranch) ▸ hclear

end PublishOnce
