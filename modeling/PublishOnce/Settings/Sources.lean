/-
PublishOnce.Settings.Sources — where settings come from, and which source wins.

A field is taken from the command line if it is there, else from the
configuration file, else it has its default. Relative paths belong to the place
they were written in: a path of the file is relative to the directory of the
file, a path of the command line to the working directory. A path that starts
with a tilde is in the home directory, wherever it was written. Looking for the
tilde takes the path as it is shown: what in it is no text is lost on the way,
and what it is relative to keeps every byte.
-/
import PublishOnce.FileTree
import PublishOnce.Settings.Basic

namespace PublishOnce

/-! ## 1. Making paths absolute -/

/-- What is shown of a path, with the home directory in the place of a tilde that stands alone or
before a slash. The two texts are put together as they are. Without a home directory the tilde stays. -/
def Path.expandHome (home : Option String) (path : Path) : Path :=
  match home, path.shown.toList with
  | some home, ['~'] => home
  | some home, '~' :: '/' :: rest => home ++ String.ofList ('/' :: rest)
  | _, _ => path.shown

/-- A path that was written relative to a directory. -/
def Path.resolveIn (home : Option String) (root path : Path) : Path := root.join (path.expandHome home)

/-! ## 2. Looking for the configuration file -/

/-- The candidates for a file of some name: in a directory, in its parent, and so on. -/
def Settings.candidates (start name : Path) : List Path :=
  start.ancestors.map fun dir => dir.join name

/-- The nearest regular file of some name, from a directory upwards. An absolute name has one
candidate, which only has to exist. -/
def Settings.findFile (files : FileTree) (cwd : Location) (start name : Path) : Option Path :=
  if name.isAbsolute then if files.pathExists cwd name then some name else none
  else (Settings.candidates start name).find? (files.isFile cwd)

/-! ## 3. The sources put together -/

/-- What the command line says about the settings. -/
structure Overrides where
  remote : Option String := none
  branch : Option String := none
  dir : Option Path := none
  source : Option Path := none
  scratch : Option Path := none
  deriving DecidableEq, Repr, Inhabited

namespace Settings

/-- The settings with their paths made absolute, as paths relative to a directory. -/
def resolveIn (settings : Settings) (home : Option String) (root : Path) : Settings :=
  { settings with
    source := { root := .resolveIn home root settings.source.root }
    target :=
      { settings.target with
        dir := .resolveIn home root settings.target.dir
        scratch := .resolveIn home root settings.target.scratch } }

/-- The settings with what the command line says. -/
def override (settings : Settings) (overrides : Overrides) (home : Option String) (cwd : Path) :
    Settings :=
  { settings with
    source :=
      { root := (overrides.source.map (Path.resolveIn home cwd)).getD settings.source.root }
    target :=
      { remote := overrides.remote.getD settings.target.remote
        branch := overrides.branch.getD settings.target.branch
        dir := (overrides.dir.map (Path.resolveIn home cwd)).getD settings.target.dir
        scratch :=
          (overrides.scratch.map (Path.resolveIn home cwd)).getD settings.target.scratch } }

end Settings

end PublishOnce
