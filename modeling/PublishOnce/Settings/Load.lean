/-
PublishOnce.Settings.Load — from the command line and the file system to
settings that are fit for use.

The configuration file is the one asked for, which must be there, or the
nearest one upwards, which need not be. Settings that are returned have
absolute paths if the working directory has, and break none of the rules; only
these settings ever reach git.
-/
import PublishOnce.Settings.Sources
import PublishOnce.World

namespace PublishOnce.Settings

def fileName : String := "deploy.toml"

/-- The configuration file to be read, if there is one. -/
def locate {G : Type} (cwd : Path) (asked : Option Path) : Act G (Option Path) := do
  let world ← get
  match asked with
  | some path =>
    let path := Path.resolveIn world.home cwd path
    if world.files.isFile world.cwd path then return some path
    throw (.configMissing path)
  | none => return findFile world.files world.cwd cwd fileName

/-- The settings in a configuration file. The names of fields that say nothing are noted. -/
def readFile {G : Type} (path : Path) : Act G Settings := do
  let world ← get
  match (world.files.readFile? world.cwd path).bind Text.Utf8.decode? with
  | none => throw (.configUnreadable path)
  | some text =>
    match ofText text with
    | .error reason => throw (.configMalformed reason)
    | .ok (settings, ignored) =>
      if !ignored.isEmpty then
        Act.log "warning" ("unknown fields in " ++ path.shown ++ ", ignoring:")
        modify fun world => ignored.foldl (fun world name => world.note ("- " ++ name)) world
      return settings

/-- The settings of a configuration file or, without one, the defaults. -/
def readSource {G : Type} (file : Option Path) : Act G Settings :=
  match file with
  | some path => do
    Act.debug "config" ("using " ++ path.shown)
    readFile path
  | none => do
    Act.debug "config" ("no " ++ fileName ++ " found, using defaults")
    return {}

/-- The directory that paths in a configuration file are relative to. -/
def baseOf (cwd : Path) (file : Option Path) : Path := (file.bind Path.parent?).getD cwd

/-- The settings of a source with their paths made absolute and with what the command line says. -/
def combine (settings : Settings) (home : Option String) (cwd : Path) (file : Option Path)
    (overrides : Overrides) : Settings :=
  (settings.resolveIn home (baseOf cwd file)).override overrides home cwd

/-- Load settings as if started in a directory. -/
def load {G : Type} (cwd : Path) (asked : Option Path) (overrides : Overrides) :
    Act G Settings := do
  let file ← locate cwd asked
  let settings ← readSource file
  let settings := settings.combine (← get).home cwd file overrides
  match settings.validate with
  | .error broken => throw (.configInvalid broken)
  | .ok () => return settings

end PublishOnce.Settings
