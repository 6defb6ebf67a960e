/-
PublishOnce.World — what a run acts on.

A run sees a file system, a working directory, a home directory, the verbose
flag and git; it leaves the file system, git's record and the journal behind.
All of it is one value, so a run is a function from one world to the next, and
a failure leaves a world behind just like a success.

What git is, is a parameter: the git of a shell and the git of a rehearsal have
different things to remember.
-/
import PublishOnce.Failure
import PublishOnce.Journal

namespace PublishOnce

/-- Everything that a run sees and leaves behind. -/
structure World (G : Type) where
  files : FileTree := {}
  cwd : Location := []
  /-- The home directory, if there is one whose path is text. -/
  home : Option String := none
  verbose : Bool := false
  journal : Journal := {}
  git : G
  deriving Inhabited

/-- An action on a world, which may fail. -/
abbrev Act (G : Type) := ExceptT Failure (StateM (World G))

namespace World

variable {G : Type}

/-- The world with one more message in its journal. -/
def say (world : World G) (message : Message) : World G :=
  { world with journal := world.journal.say message }

/-- The world with a debug message in its journal, if such are wanted. -/
def debug (world : World G) (origin text : String) : World G :=
  if world.verbose then world.say ⟨origin, text, true⟩ else world

/-- The world with one more notice in its journal. -/
def note (world : World G) (text : String) : World G :=
  { world with journal := world.journal.note text }

end World

namespace Act

variable {G α : Type}

def log (origin text : String) : Act G Unit := modify fun world => world.say ⟨origin, text, false⟩

def debug (origin text : String) : Act G Unit := modify fun world => world.debug origin text

/-- Put an activity around a failure. -/
def during (activity : Activity) (action : Act G α) : Act G α :=
  fun world =>
    match action world with
    | (.ok result, world) => (.ok result, world)
    | (.error reason, world) => (.error (.during activity reason), world)

/-- Whatever comes of an action, change the world behind it. -/
def thenAlways (action : Act G α) (change : World G → World G) : Act G α :=
  fun world =>
    let (outcome, world) := action world
    (outcome, change world)

end Act

end PublishOnce
