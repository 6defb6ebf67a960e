/-
PublishOnce.Proofs.Act — actions on a world, one step at a time.

An action is a function from a world to an outcome and a world. The equations
here say that about every way of building one, so a proof about a routine never
looks inside the transformers that `Act` is made of.

`SameGround` relates two worlds that differ in what has been said and in
whether debug messages are wanted. Nothing but the journal ever depends on
either, and that is what the relation is for: a state of a run can be named
without repeating the messages that led to it.
-/
import PublishOnce.World

namespace PublishOnce

variable {G α β : Type}

/-! ## 1. Equations -/

namespace Act

@[simp] theorem pure_apply (result : α) (world : World G) :
    (pure result : Act G α) world = (.ok result, world) := rfl

@[simp] theorem throw_apply (reason : Failure) (world : World G) :
    (throw reason : Act G α) world = (.error reason, world) := rfl

@[simp] theorem get_apply (world : World G) :
    (get : Act G (World G)) world = (.ok world, world) := rfl

@[simp] theorem set_apply (new world : World G) :
    (set new : Act G PUnit) world = (.ok (), new) := rfl

@[simp] theorem modify_apply (change : World G → World G) (world : World G) :
    (modify change : Act G PUnit) world = (.ok (), change world) := rfl

@[simp] theorem log_apply (origin text : String) (world : World G) :
    (Act.log origin text : Act G Unit) world = (.ok (), world.say ⟨origin, text, false⟩) := rfl

@[simp] theorem debug_apply (origin text : String) (world : World G) :
    (Act.debug origin text : Act G Unit) world = (.ok (), world.debug origin text) := rfl

/-- The second action starts where the first one ended well. -/
theorem bind_apply (action : Act G α) (next : α → Act G β) (world : World G) :
    (action >>= next) world =
      match action world with
      | (.ok result, world) => next result world
      | (.error reason, world) => (.error reason, world) := by
  change ExceptT.bindCont next (action world).1 (action world).2 = _
  rcases action world with ⟨_ | result, world⟩ <;> rfl

/-- A failure is handled where the action left the world. -/
theorem tryCatch_apply (action : Act G α) (handle : Failure → Act G α) (world : World G) :
    (tryCatch action handle : Act G α) world =
      match action world with
      | (.ok result, world) => (.ok result, world)
      | (.error reason, world) => handle reason world := by
  simp only [tryCatch, tryCatchThe, MonadExceptOf.tryCatch, ExceptT.tryCatch, ExceptT.mk, bind,
    StateT.bind]
  rcases action world with ⟨_ | result, world⟩ <;> rfl

theorem during_apply (activity : Activity) (action : Act G α) (world : World G) :
    Act.during activity action world =
      ((action world).1.mapError (.during activity), (action world).2) := by
  unfold Act.during
  rcases action world with ⟨_ | result, world⟩ <;> rfl

@[simp] theorem thenAlways_apply (action : Act G α) (change : World G → World G)
    (world : World G) :
    Act.thenAlways action change world = ((action world).1, change (action world).2) := rfl

end Act

/-- An outcome that yields a result is that result. -/
theorem eq_ok_of_toOption {ε α : Type} {outcome : Except ε α} {result : α}
    (h : outcome.toOption = some result) : outcome = .ok result := by
  cases outcome with
  | error reason => cases h
  | ok found => exact congrArg Except.ok (Option.some.inj h)

/-! ## 2. Worlds on the same ground -/

namespace World

/-- Two worlds that differ at most in what has been said and in whether debug messages are wanted. -/
structure SameGround (one other : World G) : Prop where
  files : one.files = other.files
  cwd : one.cwd = other.cwd
  home : one.home = other.home
  git : one.git = other.git

theorem SameGround.refl (world : World G) : SameGround world world := ⟨rfl, rfl, rfl, rfl⟩

theorem SameGround.symm {one other : World G} (h : SameGround one other) : SameGround other one :=
  ⟨h.files.symm, h.cwd.symm, h.home.symm, h.git.symm⟩

theorem SameGround.trans {one other third : World G} (h : SameGround one other)
    (h' : SameGround other third) : SameGround one third :=
  ⟨h.files.trans h'.files, h.cwd.trans h'.cwd, h.home.trans h'.home, h.git.trans h'.git⟩

theorem sameGround_say (world : World G) (message : Message) :
    SameGround (world.say message) world := ⟨rfl, rfl, rfl, rfl⟩

theorem sameGround_debug (world : World G) (origin text : String) :
    SameGround (world.debug origin text) world := by
  unfold World.debug
  split
  · exact sameGround_say ..
  · exact .refl _

end World

end PublishOnce
