/-
# MiniC.CommandLine — the checker as a program

The program takes one argument, the path of a file. It is silent about a file without errors, and
shows the first error of any other on the error stream. Its exit code is zero exactly for a file
without errors.

* `exitCode_report` — what the exit code tells.
* `output_run` — nothing is ever written to the output.
-/
import MiniC.Source

namespace MiniC.CommandLine

set_option autoImplicit false

/-- What a run of the program shows and its exit code. -/
structure Outcome where
  exitCode : UInt32
  output : String
  errors : String
  deriving DecidableEq, Repr

/-- How to call the program. -/
def usage (program : String) : String :=
  "Error: expected exactly one input file\n\nUsage: " ++ program ++ " <file>\n"

/-- The outcome of checking a file. -/
def report (path : String) : Except CompileError File → Outcome
  | .ok _ => ⟨0, "", ""⟩
  | .error error => ⟨1, "", error.render path ++ "\n"⟩

/-- The path that the arguments name, if they are one. -/
def path? : List String → Option String
  | [path] => some path
  | _ => none

/-- The outcome of a run with the given arguments and contents of the file that they name. -/
def run (program : String) (arguments : List String) (contents : String → Contents) : Outcome :=
  match path? arguments with
  | some path => report path (parseContents path (contents path))
  | none => ⟨1, "", usage program⟩

theorem exitCode_report (path : String) (result : Except CompileError File) :
    (report path result).exitCode = 0 ↔ ∃ file, result = .ok file := by
  cases result <;> simp [report]

theorem output_run (program : String) (arguments : List String) (contents : String → Contents) :
    (run program arguments contents).output = "" := by
  unfold run
  split
  · unfold report
    split <;> rfl
  · rfl

end MiniC.CommandLine
