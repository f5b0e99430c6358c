/-
# MiniC.Main — the program

Reads the file that the command line names, and shows what `CommandLine.run` makes of it.
-/
import MiniC.CommandLine

namespace MiniC

set_option autoImplicit false

/-- Why the operating system does not hand out a file. -/
def ReadFault.ofIOError : IO.Error → ReadFault
  | .noFileOrDirectory .. => .notFound
  | .permissionDenied .. => .denied
  | .inappropriateType .. => .isDirectory
  | .otherError code reason => .system reason code.toNat
  | error => .system error.toString 5

/-- The contents of the file under `path`. -/
def readContents (path : String) : IO Contents := do
  try
    return .ok (← IO.FS.readBinFile path)
  catch error =>
    return .error (.ofIOError error)

end MiniC

/-- Checks the file that the arguments name. -/
def main (arguments : List String) : IO UInt32 := do
  let contents ← match MiniC.CommandLine.path? arguments with
    | some path => MiniC.readContents path
    | none => pure (.ok .empty)
  let program := (← IO.appPath).fileName.getD "minic"
  let outcome := MiniC.CommandLine.run program arguments fun _ => contents
  IO.print outcome.output
  IO.eprint outcome.errors
  return outcome.exitCode
