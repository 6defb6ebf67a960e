/-
PublishOnce.Main — the command line program.

It looks at the files that a run could ask for, reads what git answered from
standard input, and lets `Session.run` decide everything. Nothing is started
and nothing is written: the program says how a publication goes, given how git
answers.
-/
import PublishOnce.Session
import PublishOnce.Transcript

namespace PublishOnce.Main

/-! ## 1. Which files are looked at -/

/-- The paths at which the settings of a run may be found. -/
def settingsPaths (line : CommandLine) (home : Option String) (cwd : Path) : List Path :=
  cwd :: Settings.candidates cwd Settings.fileName
    ++ (line.config.map (Path.resolveIn home cwd)).toList

/-- The paths that matter to a publication with given settings: what is published, and where the clone
is made. -/
def publicationPaths (settings : Settings) : List Path :=
  [settings.target.dir, clonePath settings.target.remote settings.target.scratch]

/-- Take what stands at a path over into a tree. -/
def takeOver (tree : FileTree) (path : Path) : IO FileTree := do
  try
    let content ← IO.FS.readBinFile path.shown
    return tree.writeFile [] path content.toList
  catch _ =>
    try
      let _ ← IO.FS.realPath (path.shown ++ "/.")
      return tree.makeDirs [] path
    catch _ => return tree

/-! ## 2. The world of a run -/

def worldOf (line : CommandLine) (shell : Program.Shell) : IO (World Program.Shell) := do
  let cwd : Path := (← IO.currentDir).toString
  let home ← IO.getEnv "HOME"
  let files ← (settingsPaths line home cwd).foldlM takeOver {}
  let world : World Program.Shell :=
    { files, cwd := (FileTree.segments cwd).filter (!·.isEmpty)
      home
      git := shell }
  match (Settings.load cwd line.config line.overrides world).1 with
  | .ok settings =>
    let files ← (publicationPaths settings).foldlM takeOver files
    return { world with files }
  | .error _ => return world

def report (ending : Session.Ending) : IO UInt32 := do
  IO.print ending.out
  IO.eprint ending.err
  return UInt32.ofNat ending.code

def run (words : List Bytes) : IO UInt32 := do
  match CommandLine.parse words with
  | .error halt => report ⟨Session.haltCode halt, Session.haltText halt, ""⟩
  | .ok line =>
    let content ← (← IO.getStdin).readBinToEnd
    match Transcript.shell? (Text.Utf8.decodeLossy content.toList) with
    | none =>
      IO.eprintln "The answers of git cannot be read"
      return 2
    | some shell => report (Session.run words (← worldOf line shell)).1

end PublishOnce.Main

def main (words : List String) : IO UInt32 :=
  PublishOnce.Main.run (words.map PublishOnce.Bytes.ofString)
