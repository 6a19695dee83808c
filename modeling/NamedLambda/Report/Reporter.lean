import NamedLambda.Failure

/-!
This module contains the reporter. It remembers which line of which file is being worked on, writes
warnings and errors, and decides whether a program goes on after an error.
-/

namespace NamedLambda

open Text (Colour Paint)

structure Activity where
  path : String
  line : Option String
  number : Option Int
  deriving DecidableEq, Repr, Inhabited

/--
A reporter knows the files in the order in which they were first named, and keeps all that it writes.
-/
structure Reporter where
  fatal : Bool
  paint : Paint
  activities : List Activity
  output : String

inductive ExitStatus where
  | unspecified
  | code (code : Int)
  | text (text : String)
  deriving DecidableEq, Repr, Inhabited

inductive Interruption where
  | diagnosed (diagnostic : Diagnostic)
  | fault (cause : Fault)
  | keyboard
  | tooDeep
  | exit (status : ExitStatus)
  deriving DecidableEq, Repr, Inhabited

def Interruption.kind? : Interruption → Option String
  | diagnosed _ => none
  | fault cause => some cause.kind
  | keyboard => some "KeyboardInterrupt"
  | tooDeep => some "RecursionError"
  | exit _ => some "SystemExit"

def Failure.interruption (failure : Failure) : Interruption :=
  match failure.diagnostic with
  | .ok diagnostic => .diagnosed diagnostic
  | .error cause => .fault cause

namespace Reporter

def new (fatal : Bool) (paint : Paint) : Reporter where
  fatal := fatal
  paint := paint
  activities := []
  output := ""

def setActivity (reporter : Reporter) (activity : Activity) : Reporter :=
  { reporter with activities := go reporter.activities }
where
  go : List Activity → List Activity
    | [] => [activity]
    | entry :: rest => if entry.path = activity.path then activity :: rest else entry :: go rest

def register (reporter : Reporter) (path : String) : Reporter :=
  reporter.setActivity { path, line := none, number := none }

def begin (reporter : Reporter) (path : String) (line : Option String) (number : Option Int) :
    Reporter :=
  reporter.setActivity { path, line, number }

def clear (reporter : Reporter) : Reporter :=
  { reporter with
    activities := reporter.activities.map fun activity =>
      { activity with line := none, number := none } }

def write (reporter : Reporter) (text : String) : Reporter :=
  { reporter with output := reporter.output ++ text }

def numberText : Option Int → String
  | some number => toString number
  | none => "None"

def location (reporter : Reporter) : String :=
  match reporter.activities.reverse.find? (fun activity => activity.line.isSome) with
  | some activity => activity.path ++ ":" ++ numberText activity.number ++ ": "
  | none => ""

def writeExcerpt (reporter : Reporter) (colour : Colour) (diagnostic : Diagnostic) :
    Reporter × Option Fault :=
  if diagnostic.hasExcerpt then
    match diagnostic.excerpt reporter.paint colour with
    | .ok excerpt => (reporter.write (excerpt ++ "\n"), none)
    | .error cause => (reporter, some cause)
  else (reporter, none)

def warnBriefly (reporter : Reporter) (diagnostic : Diagnostic) : Reporter :=
  let paint := reporter.paint
  let location := if reporter.location.isEmpty then "" else paint.bold reporter.location
  reporter.write (location ++ paint.strong .magenta "warning: " ++ diagnostic.painted paint ++ "\n")

def warn (reporter : Reporter) (diagnostic : Diagnostic) : Reporter × Option Fault :=
  (reporter.warnBriefly diagnostic).writeExcerpt .magenta diagnostic

def trace (reporter : Reporter) : String :=
  let entries := reporter.activities.filterMap fun activity =>
    match activity.line with
    | none => none
    | some line =>
      if line.isEmpty then none
      else some ("  File '" ++ activity.path ++ "', line " ++ numberText activity.number ++ ":\n"
        ++ "    " ++ line ++ "\n")
  (if 1 < entries.length then "Traceback:\n" else "") ++ String.join entries

def error (reporter : Reporter) (diagnostic : Diagnostic) : Reporter × Option Interruption :=
  let paint := reporter.paint
  let mark := if diagnostic.internal then paint.strong .red "[internal] " else ""
  let reporter := reporter.write
    (reporter.trace ++ mark ++ paint.strong .red "error: " ++ diagnostic.painted paint ++ "\n")
  match reporter.writeExcerpt .red diagnostic with
  | (reporter, some cause) => (reporter, some (.fault cause))
  | (reporter, none) =>
    if reporter.fatal then (reporter, some (.exit (.code 1))) else (reporter.clear, none)

def throw (reporter : Reporter) : Interruption → Reporter × Option Interruption
  | .diagnosed diagnostic => reporter.error diagnostic
  | interruption => (reporter, interruption.kind?.map (.fault <| .undiagnosed ·))

def faultDiagnostic (cause : Fault) : Diagnostic :=
  let text := cause.kind ++ ": " ++ cause.text
  { Diagnostic.about [.text "unknown error: '", .expression text, .text "'"] text with
    internal := true }

/--
Take up the interruption of a guarded piece of work. The outcome is what goes on to interrupt the work
around it: a diagnosed error does not, a fault does, and an exit is passed on unseen.
-/
def guard (reporter : Reporter) : Interruption → Reporter × Option Interruption
  | .diagnosed diagnostic => reporter.error diagnostic
  | .keyboard => reporter.error (Diagnostic.about [.text "keyboard interrupt"] "")
  | .tooDeep =>
    reporter.error
      (Diagnostic.about [.text "term is too deep to reduce: maximum recursion depth exceeded"] "")
  | .exit status => (reporter, some (.exit status))
  | .fault cause =>
    let (reporter, exit) := reporter.error (faultDiagnostic cause)
    (reporter, some (exit.getD (.fault cause)))

end Reporter

end NamedLambda
