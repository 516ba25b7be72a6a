import EventHub.CommandLine.Files
set_option autoImplicit false

/-!
The program: it copies the files that a run may touch, runs on the copy, and makes good on the files what
the run did.
-/
namespace EventHub.CommandLine

/-- What really stands at a name. A directory can be looked at but not read. -/
def look (name : String) : IO (Option (Option Bytes)) := do
  try
    let content ← IO.FS.readBinFile name
    return some (some content.toList)
  catch e =>
    match e with
    | .noFileOrDirectory .. => return none
    | .inappropriateType .. => return some none
    | e => throw e

def copyFile (files : FileSystem) (f : FileName) : IO FileSystem :=
  (waysTo f).foldlM
    (fun files way => do
      if files.isThere way then return files
      match ← look way.text with
      | none => return files
      | some none => return (files.makeDirectories way).2
      | some (some content) => return (files.save way content).2)
    files

def copyFiles (files : FileSystem) (fs : List FileName) : IO FileSystem := fs.foldlM copyFile files

def repair : Repair → IO Unit
  | .directory name => IO.FS.createDirAll name
  | .write name content => IO.FS.writeBinFile name ⟨content.toArray⟩
  | .remove name => IO.FS.removeFile name

def variableNames : List String :=
  ["EVMUX_DEBUG", "EVMUX_DELETE_RECORDINGS_ON_ABORT", "EVMUX_RECORD_INPUT_FILE",
   "EVMUX_RECORD_OUTPUT_FILE"]

def environment : IO Environment :=
  variableNames.filterMapM fun name => do return (← IO.getEnv name).map fun value => (name, value)

def startPlace : IO Place := do
  let here ← IO.currentDir
  return ((FileName.mk here.toString).pieces.filter fun p => !p.isEmpty).map String.ofList

def copyFor (arguments : List String) (environment : Environment) (home : FileName) : IO FileSystem := do
  let files := FileSystem.freshAt (← startPlace)
  match read arguments with
  | .error _ => return files
  | .ok r =>
    let files ← copyFiles files (configFiles home r)
    match configOf files environment home r with
    | .error _ => return files
    | .ok config => copyFiles files (commandFiles config r.command)

end EventHub.CommandLine

open EventHub EventHub.CommandLine in
def main (arguments : List String) : IO UInt32 := do
  let settings ← environment
  let home : FileName := ⟨(← IO.getEnv "HOME").getD "."⟩
  let files ← copyFor arguments settings home
  let (outcome, after) := run files settings home arguments
  (repairs files after).forM repair
  IO.print outcome.output
  match outcome.error with
  | some text => IO.eprintln text
  | none => if outcome.code = 2 then IO.eprint usageText
  return UInt32.ofNat outcome.code
