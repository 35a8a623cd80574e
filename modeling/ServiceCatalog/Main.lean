import ServiceCatalog.CommandLine.Run
import ServiceCatalog.Shell.Run
import ServiceCatalog.Toml.Codec
import Std.Time.DateTime.Timestamp

/-!
The command line program. It gathers the files that a command may look at, runs the command on them, and
brings what has changed back to the file system.
-/

namespace ServiceCatalog.CommandLine

def variableNames : List String := ["HOME", "USER", "XDG_CONFIG_HOME", "XDG_DATA_HOME"]

def readEnvironment : IO Environment :=
  variableNames.filterMapM fun name => do return (← IO.getEnv name).map (name, ·)

def locationText (l : Location) : String := "/" ++ "/".intercalate (l.map PathText.display)

def currentLocation : IO Location := do
  return (Path.location? [] (.ofText (toString (← IO.currentDir)))).getD []

def readNode (l : Location) : IO (Option FileNode) := do
  let file := (← IO.currentDir) / locationText l
  if !(← file.pathExists) then return none
  if ← file.isDir then return some .directory
  try
    return some (.text (← IO.FS.readFile file))
  catch _ => return some .directory

def gather (files : Files) (p : Path) : IO Files := do
  let mut files := files
  for l in ((files.locate? p).map Location.steps).getD [] do
    match ← readNode l with
    | some node => files := files.put l node
    | none => pure ()
  return files

def Command.file? : Command → Option Path
  | .apply file | .update _ file _ | .recordTest _ file | .importServers file _ => some file
  | _ => none

def gatherFor (e : Environment) (i : Invocation) : IO Files := do
  let config := i.config.getD (Config.defaultFile e)
  let files ← gather (.empty (← currentLocation)) config
  let store := match Config.load Toml.codec files config with
    | .ok c => i.store.getD (c.storeFile e)
    | .error _ => config
  let files ← gather files store
  match i.command.file? with
  | some file => gather files file
  | none => return files

def replaceFile (l : Location) (content : String) : IO Unit := do
  let name := locationText l
  IO.FS.writeFile (name ++ ".tmp") content
  IO.FS.rename (name ++ ".tmp") name

def bring (before after : Files) : IO Unit := do
  for (l, node) in after.nodes.reverse do
    if before.node? l ≠ some node then
      match node with
      | .directory => IO.FS.createDirAll (locationText l)
      | .text content => replaceFile l content

def newIds : IO (Nat → Uuid) := do
  let bytes ← IO.getRandomBytes 16
  let n := bytes.toList.foldl (fun n b => 256 * n + b.toNat) 0
  return fun k =>
    let bits := BitVec.ofNat 128 (n + k)
    ⟨(bits &&& 0xffffffffffff0fff3fffffffffffffff#128) ||| 0x00000000000040008000000000000000#128⟩

def currentTime : IO Int64 := do
  return Int64.ofInt (← Std.Time.Timestamp.now).toMillisecondsSinceUnixEpoch.val

def maxPages : Nat := 1000

def runInvocation (i : Invocation) : IO UInt32 := do
  let environment ← readEnvironment
  let files ← gatherFor environment i
  let launch := fun files => Shell.launch files environment
  let run := i.run
    ⟨files, environment, Toml.codec, ← currentTime, ← newIds, launch, maxPages, fun _ => none⟩
  bring files run.files
  for line in run.lines do
    IO.println line
  match run.fault with
  | none => return 0
  | some fault =>
    IO.eprintln ("Error: " ++ fault.message)
    return 1

end ServiceCatalog.CommandLine

open ServiceCatalog.CommandLine in
def main (args : List String) : IO UInt32 := do
  match Invocation.ofArguments? args with
  | some i => runInvocation i
  | none =>
    IO.eprintln "error: these arguments are no command"
    return 2
