import HclEdit.Cli.Snapshot

/-!
The command line program. It gathers the files that a run may look at, runs, and writes out what the
run has written.
-/

open HclEdit

def readVariables : IO Environment.Variables := do
  try
    let block ← IO.FS.readBinFile "/proc/self/environ"
    return Cli.variablesOf block.toList
  catch _ =>
    return []

def readEntry (path : Text) : IO (Option FileEntry) := do
  let name := String.ofList path
  try
    let real ← IO.FS.realPath name
    if ← real.isDir then
      return some .directory
    return some (.file (← IO.FS.readBinFile name).toList true)
  catch _ =>
    return none

def gather (files : FileSystem) (paths : List Text) : IO FileSystem := do
  let mut entries := files.entries
  for path in paths do
    let place := files.placeOf path
    if (entries.lookup place).isNone then
      if let some entry ← readEntry path then
        entries := entries ++ [(place, entry)]
  return { files with entries }

def main (given : List String) : IO UInt32 := do
  let arguments := "terrain".toList :: given.map String.toList
  let environment ← readVariables
  let here := ((← IO.getEnv "PWD").getD "/").toList
  let start : FileSystem := ⟨(FileSystem.names here).filter (! ·.isEmpty), Execution.system⟩
  let settled ← gather start (Cli.settingsPaths arguments environment)
  let split := ArgumentSplit.of arguments
  let files ←
    match Config.load ⟨split.settings, environment, settled⟩ with
    | .ok config => gather settled (Cli.checkerPaths environment config.checkerCommand)
    | .error _ => pure settled
  let (status, streams) :=
    Cli.run (.ofFiles files environment) arguments ⟨.unlimited, .unlimited⟩
  (← IO.getStdout).write ⟨streams.stdout.written.toArray⟩
  (← IO.getStderr).write ⟨streams.stderr.written.toArray⟩
  return match status with
    | .success => 0
    | .failure => 1
