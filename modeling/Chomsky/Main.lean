import Chomsky.CommandLine.Run

/-!
# The program

Runs a command on the machine: its files, its standard streams and its source of randomness.
-/

open Chomsky.CommandLine

/-- The fault that an error of the machine stands for. -/
def faultOfError : IO.Error → FileFault
  | .noFileOrDirectory .. => .missing
  | .inappropriateType _ 20 _ => .notDirectory
  | .inappropriateType .. => .directory
  | error => .other (toString error)

/-- Tries an action on a file. -/
def tryFile {α : Type} (action : IO α) : IO (Except FileFault α) := do
  try return .ok (← action) catch error => return .error (faultOfError error)

/-- The machine as a host. -/
def machine : Host IO where
  readFile path := tryFile (IO.FS.readBinFile path)
  writeFile path text := tryFile (IO.FS.writeFile path text)
  readInput := do (← IO.getStdin).readBinToEnd
  freshSeed := do
    let bytes ← IO.getRandomBytes 8
    return bytes.toList.foldl (fun seed byte => seed * 256 + byte.toUInt64) 0

/-- Runs the program and reports how it ended. -/
def main (args : List String) : IO UInt32 := do
  let outcome ← run machine args
  IO.print outcome.output
  IO.eprint outcome.errors
  return UInt32.ofNat outcome.status.code
