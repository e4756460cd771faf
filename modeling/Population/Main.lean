import Population.CommandLine.Run

/-!
# The program

Reads the files and variables that the arguments speak of, runs the command on them, and writes
what it leaves behind. Everything else is decided by `Population.Machine.run`. The program starts
no other program, so the tool of the external oracle is never found, and durable stores are gone
when it ends.
-/

namespace Population.Outer

open Text (byte)

/-- The paths that an argument may speak of. -/
def pathsIn (arg : Text) : List Text :=
  match Text.cut (byte '=') arg with
  | some (_, value) => [arg, value]
  | none => [arg]

def read? (path : Text) : IO (Option Text) := do
  try
    return some (← IO.FS.readBinFile path.toString).toList
  catch _ => return none

def isFolder (path : Text) : IO Bool := do
  try
    (← IO.FS.realPath path.toString).isDir
  catch _ => return false

/-- The files and folders on the way to paths. -/
def snapshot (paths : List Text) : IO Workspace := do
  let places := paths.flatMap fun p => Workspace.foldersAbove (Path.clean p) ++ [Path.clean p]
  let folders ← places.filterM isFolder
  let files ← places.filterMapM fun p => do return (← read? p).map fun t => (p, t)
  return { files, folders }

/-- The variables of the environment that belong to settings. -/
def environment : IO Settings.Environment :=
  Settings.fields.filterMapM fun f => do
    let value ← IO.getEnv f.variableName.toString
    return value.map fun v => (f.variableName, Text.ofString v)

def readInput : IO Text := do
  return (← (← IO.getStdin).readBinToEnd).toList

/-- Writes the folders and files that are new or changed. -/
def store (before after : Workspace) : IO Unit := do
  for folder in after.folders do
    unless before.folders.contains folder do IO.FS.createDirAll folder.toString
  for (path, content) in after.files do
    unless before.files.lookup path = some content do
      IO.FS.writeBinFile path.toString ⟨content.toArray⟩

/-- Times in nanoseconds, durations with units. -/
def style : Style := ⟨Text.ofInt, Duration.text⟩

end Population.Outer

open Population Population.Outer in
def main (args : List String) : IO UInt32 := do
  let arguments := args.map Text.ofString
  let environment ← environment
  let workspace ← snapshot (arguments.flatMap pathsIn ++ environment.map (·.2))
  let stdin ← if arguments.contains "-" then readInput else pure []
  let machine : Machine := { workspace, clock := { now := ← IO.monoNanosNow } }
  let (report, machine) := machine.run style { arguments, stdin, environment }
  (← IO.getStdout).write ⟨report.stdout.toArray⟩
  (← IO.getStderr).write ⟨report.stderr.toArray⟩
  store workspace machine.workspace
  return UInt32.ofNat report.exit
