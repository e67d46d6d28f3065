import CommandPack.Cli.Command

/-!
The program `dpc`: runs a command line on the files of the machine.
-/

namespace CommandPack.Cli

def attempt {α : Type} (act : IO α) : IO (Except String α) := do
  try
    return .ok (← act)
  catch e => return .error (toString e)

def directoryOf (path : String) : String := Disk.joinPaths [path, ".."]

def machinePlace : Place IO where
  lookupVar name := IO.getEnv name
  home? := IO.getEnv "HOME"
  readInput := do (← IO.getStdin).readToEnd
  readFile path := attempt (IO.FS.readFile path)
  writeFile path text := attempt do
    IO.FS.createDirAll (directoryOf path)
    IO.FS.writeFile path text
  removeAll path := attempt (IO.FS.removeDirAll path)

end CommandPack.Cli

open CommandPack in
def main (args : List String) : IO UInt32 := do
  let o ← Cli.execute Cli.machinePlace args
  (← IO.getStdout).putStr o.out
  (← IO.getStderr).putStr o.err
  match o.failure with
  | none => return 0
  | some f =>
    (← IO.getStderr).putStr (Problem.formatFailure false f)
    return 1
