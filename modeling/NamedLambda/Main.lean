import NamedLambda.Program

/-!
This module contains the command line program: it reads the file and the lines of input that the program
asks for, and writes what the program writes.
-/

namespace NamedLambda

/--
The number of steps that a reduction without a limit may take.
-/
def unlimited : Nat :=
  0x4000000000000000

def lookUp (path : String) : IO FileEntry := do
  try
    let octets ← IO.FS.readBinFile path
    return .file octets.toList
  catch _ => return .missing

def flush (shell : Shell) : IO Shell := do
  IO.print shell.output
  (← IO.getStdout).flush
  IO.eprint shell.session.reporter.output
  let reporter := { shell.session.reporter with output := "" }
  return { shell with output := "", session := { shell.session with reporter } }

def report (outcome : Program.Outcome) : IO UInt32 := do
  IO.print outcome.output
  IO.eprint outcome.errors
  match outcome.ending with
  | .exit .unspecified => return 0
  | .exit (.code code) => return code.toNat.toUInt32
  | _ => return 1

partial def interact (shell : Shell) : IO UInt32 := do
  let shell ← flush { shell with output := shell.output ++ Shell.prompt }
  let line ← (← IO.getStdin).getLine
  let line := if line.isEmpty then "EOF" else String.ofList (line.toList.filter (· != '\n'))
  match shell.perform unlimited line with
  | none => return 1
  | some (shell, .ok false) => interact shell
  | some (shell, .ok true) => report (Program.leave shell (.ok ()))
  | some (shell, .error interruption) => report (Program.leave shell (.error interruption))

end NamedLambda

open NamedLambda in
def main (arguments : List String) : IO UInt32 := do
  let path :=
    match CommandLine.parse arguments with
    | .ok options => options.path.getD ""
    | .error _ => ""
  let entry ← lookUp path
  match Program.start unlimited (fun _ => entry) .plain arguments with
  | none => return 1
  | some (.finished outcome) => report outcome
  | some (.shell shell) => interact shell
