import Interlingua.Json.Parser
import Interlingua.Session.Run
import Interlingua.Tree.Json

/-!
# The command line

The files that a run may touch are taken from the disk, the run is carried out on them, and what it
changed is put back. The report of the parser is read from standard input.
-/

namespace Interlingua.Disk

/-- What is at a path. -/
def entry? (path : String) : IO (Option Entry) := do
  match ← (IO.FS.readFile path).toBaseIO with
  | .ok content => return some (.file content)
  | .error _ =>
    match ← (IO.FS.realPath (path ++ "/.")).toBaseIO with
    | .ok _ => return some .directory
    | .error _ => return none

def absolute (place : Place) : String :=
  "/" ++ Files.key place

/-- Take what names lead to from a place. -/
def takeParts (fs : Files) (place : Place) : List String → IO Files
  | [] => return fs
  | part :: rest => do
    let next := Files.enter place part
    match ← entry? (absolute next) with
    | some entry => takeParts (if next.isEmpty then fs else fs.insert next entry) next rest
    | none => takeParts fs next rest

def take (fs : Files) (paths : List String) : IO Files :=
  paths.foldlM (fun fs path => takeParts fs (fs.start path) (Path.names path)) fs

/-- Put what a run changed back. -/
def putBack (before after : Files) : IO Unit := do
  for (path, entry) in after.entries.entries do
    if before.entries.find? path ≠ some entry then
      if let .file content := entry then IO.FS.writeFile ("/" ++ path) content
  for (path, _) in before.entries.entries do
    if !after.entries.contains path then IO.FS.removeFile ("/" ++ path)

/-- The directory under which users keep settings. -/
def configHome : IO String := do
  match ← IO.getEnv "XDG_CONFIG_HOME" with
  | some directory => return directory
  | none => return Path.join ((← IO.getEnv "HOME").getD "") ".config"

/-- The files of a run before it starts. -/
def files (configHome : String) (job : Option Job) : IO Files := do
  let here := (Path.names (← IO.currentDir).toString).reverse
  let fs ← take (.emptyAt here) [Settings.userFile configHome, Settings.projectFile]
  match job with
  | some job => take fs (job.paths (Settings.load configHome fs))
  | none => return fs

/-- The parser whose report stands on standard input. -/
def parser : IO Parser := do
  let report ← (← IO.getStdin).readToEnd
  match Json.parse report.toList with
  | some report => return Tree.ofJson? report
  | none => return fun _ => none

end Interlingua.Disk

open Interlingua in
def main (argv : List String) : IO UInt32 := do
  let job := match Arguments.read argv with
    | some (.transpile job) => some job
    | _ => none
  let configHome ← Disk.configHome
  let before ← Disk.files configHome job
  let parse ← if job.isSome then Disk.parser else pure fun _ => none
  let (after, run) := Run.execute configHome parse argv before
  Disk.putBack before after
  IO.print run.stdout
  IO.eprint run.stderr
  return run.exit.toUInt32
