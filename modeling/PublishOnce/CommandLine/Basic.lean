/-
PublishOnce.CommandLine.Basic — what a command line can say.

There are two commands, with a long name and a one-letter name each. The global
options may stand before or behind the command, the others only behind it. An
option has a long spelling, most have a short one, and all but one of them come
with a value.

A word is bytes. What it can name is named by text, so a word that is no text is
neither a command nor an option. As a value it may be a path.
-/
import PublishOnce.Settings.Sources

namespace PublishOnce

namespace CommandLine

/-! ## 1. Commands -/

inductive Verb where
  | publish
  | status
  deriving DecidableEq, Repr, Inhabited

def Verb.named? : String → Option Verb
  | "publish" => some .publish
  | "p" => some .publish
  | "status" => some .status
  | "s" => some .status
  | _ => none

def Verb.ofWord? (word : Bytes) : Option Verb := word.text?.bind Verb.named?

def helpWord : Bytes := "help"

/-- A word that stands for a command, the command for help included. -/
def isCommandWord (word : Bytes) : Bool := (Verb.ofWord? word).isSome || word = helpWord

/-! ## 2. Options -/

/-- When to use colours. The messages here are coloured always. -/
inductive Colour where
  | auto
  | always
  | never
  deriving DecidableEq, Repr, Inhabited

def Colour.word : Colour → String
  | .auto => "auto"
  | .always => "always"
  | .never => "never"

/-- The choice that a name stands for, letter by letter. -/
def Colour.named? : String → Option Colour
  | "auto" => some .auto
  | "always" => some .always
  | "never" => some .never
  | _ => none

def Colour.ofWord? (word : Bytes) : Option Colour := word.text?.bind Colour.named?

/-- The options that come with a value. -/
inductive Key where
  | color
  | config
  | remote
  | branch
  | dir
  | source
  | scratch
  deriving DecidableEq, Repr, Inhabited

/-- The options that come without one. -/
inductive Switch where
  | verbose
  | help
  | version
  deriving DecidableEq, Repr, Inhabited

inductive Opt where
  | key (key : Key)
  | switch (switch : Switch)
  deriving DecidableEq, Repr, Inhabited

/-- The two places for options: before the command and behind it. -/
inductive Level where
  | top
  | sub
  deriving DecidableEq, Repr, Inhabited

def Opt.named? : Level → String → Option Opt
  | _, "color" => some (.key .color)
  | _, "config" => some (.key .config)
  | _, "verbose" => some (.switch .verbose)
  | _, "help" => some (.switch .help)
  | .top, "version" => some (.switch .version)
  | .sub, "remote" => some (.key .remote)
  | .sub, "branch" => some (.key .branch)
  | .sub, "dir" => some (.key .dir)
  | .sub, "source" => some (.key .source)
  | .sub, "scratch" => some (.key .scratch)
  | _, _ => none

def Opt.ofLong? (level : Level) (name : Bytes) : Option Opt := name.text?.bind (Opt.named? level)

/-- The option with a short spelling, at a level. -/
def Opt.ofShort? : Level → Char → Option Opt
  | _, 'C' => some (.key .config)
  | _, 'v' => some (.switch .verbose)
  | _, 'h' => some (.switch .help)
  | .top, 'V' => some (.switch .version)
  | .sub, 'r' => some (.key .remote)
  | .sub, 'b' => some (.key .branch)
  | .sub, 'd' => some (.key .dir)
  | .sub, 's' => some (.key .source)
  | _, _ => none

/-- The values that an option takes: a choice of colours, a path that is not empty, or any text. -/
def Key.accepts : Key → Bytes → Bool
  | .color, value => (Colour.ofWord? value).isSome
  | .config, value | .dir, value | .source, value | .scratch, value => !value.isEmpty
  | .remote, value | .branch, value => value.text?.isSome

/-! ## 3. Ways out -/

/-- Why a command line does not lead to a run. -/
inductive Halt where
  /-- A value is missing or not one that its option takes. -/
  | invalidValue
  /-- A value that has to be text and is none. -/
  | invalidText
  /-- There is no such option, or a word that nothing asks for. -/
  | unknownArgument
  | invalidSubcommand
  /-- A value for an option that takes none. -/
  | tooManyValues
  /-- An option twice at one level. -/
  | argumentConflict
  /-- Options and no command. -/
  | missingSubcommand
  /-- Nothing at all. -/
  | nothingGiven
  | helpWanted
  | versionWanted
  deriving DecidableEq, Repr, Inhabited

/-- What is wrong with a value that an option does not take. -/
def Key.objection : Key → Halt
  | .remote | .branch => .invalidText
  | .color | .config | .dir | .source | .scratch => .invalidValue

def versionText : String := "demo-deploy 0.1.0\n"

end CommandLine

structure CommandLine where
  verb : CommandLine.Verb
  colour : CommandLine.Colour := .auto
  verbose : Bool := false
  config : Option Path := none
  overrides : Overrides := {}
  deriving DecidableEq, Repr, Inhabited

end PublishOnce
