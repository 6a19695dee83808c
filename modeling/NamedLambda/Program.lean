import NamedLambda.CommandLine.Help
import NamedLambda.CommandLine.Parse
import NamedLambda.Shell

/-!
This module contains the program as a function: from its arguments, the files it can read and its input
to what it writes and how it ends.
-/

namespace NamedLambda.Program

open CommandLine (Options Task)
open Text (Paint)

structure Outcome where
  ending : Interruption
  output : String
  errors : String
  deriving DecidableEq, Repr, Inhabited

def success : Interruption :=
  .exit (.code 0)

def Outcome.ofInterruption (reporter : Reporter) (output : String) (interruption : Interruption) :
    Outcome :=
  let (reporter, passed) := reporter.guard interruption
  { ending := passed.getD success, output, errors := reporter.output }

inductive Start where
  | finished (outcome : Outcome)
  | shell (shell : Shell)

/--
Do what a command line asks for, up to the first line of input.
-/
def execute (fuel : Nat) (files : String → FileEntry) (paint : Paint) (options : Options) :
    Option Start :=
  let reporter := Reporter.new true paint
  let stop (reporter : Reporter) (failure : Failure) : Start :=
    .finished (Outcome.ofInterruption reporter "" failure.interruption)
  match options.names with
  | .error failure => some (stop reporter failure)
  | .ok (path, form, order) =>
    match Session.create files reporter (some path) form order options.limit with
    | .error failure => some (stop reporter failure)
    | .ok session =>
      match options.task with
      | .interactive =>
        match session.load false with
        | (session, .error failure) => some (stop session.reporter failure)
        | (session, .ok ()) =>
          let session := { session with reporter := { session.reporter with fatal := false } }
          some (.shell ((Shell.new session).print Shell.intro))
      | .reduce mode =>
        match session.load true with
        | (session, .error failure) => some (stop session.reporter failure)
        | (session, .ok ()) => do
          let (session, result) ← session.run fuel mode
          match result with
          | .error failure => return stop session.reporter failure
          | .ok terms =>
            return .finished
              { ending := success
                output := String.join (terms.map fun term => term.render ++ "\n")
                errors := session.reporter.output }

def leave (shell : Shell) : Except Interruption Unit → Outcome
  | .ok () => { ending := success, output := shell.output, errors := shell.session.reporter.output }
  | .error interruption => Outcome.ofInterruption shell.session.reporter shell.output interruption

def start (fuel : Nat) (files : String → FileEntry) (paint : Paint) (arguments : List String) :
    Option Start :=
  match CommandLine.parse arguments with
  | .error .help =>
    some (.finished { ending := success, output := CommandLine.help, errors := "" })
  | .error (.mistake cause) =>
    some (.finished
      { ending := .exit (.code 2)
        output := ""
        errors := CommandLine.usage ++ "lcbook: error: " ++ cause.message ++ "\n" })
  | .ok options => execute fuel files paint options

def inputLines (input : String) : List String :=
  let lines := Text.lines input.toList
  let lines := if lines.getLast? = some [] then lines.dropLast else lines
  lines.map String.ofList

def run (fuel : Nat) (files : String → FileEntry) (paint : Paint) (arguments : List String)
    (input : String) : Option Outcome := do
  match ← start fuel files paint arguments with
  | .finished outcome => return outcome
  | .shell shell =>
    let (shell, result) ← shell.interact fuel (inputLines input)
    return leave shell result

end NamedLambda.Program
