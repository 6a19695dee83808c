import NamedLambda.Session

/-!
This module contains the interactive shell: the division of lines into commands and statements, and the
reaction to each of them.
-/

namespace NamedLambda

structure InputLine where
  command : Option (String × String)
  line : String
  deriving DecidableEq, Repr, Inhabited

namespace InputLine

def isWordChar (c : Char) : Bool :=
  c.isAlphanum || c == '_'

/--
Read a line as a command: its longest word, and the rest as the argument. A question mark stands for
the word `help`. A line that begins with an exclamation mark is no command.
-/
def ofCommand (text : List Char) : InputLine :=
  match Text.strip text with
  | [] => { command := none, line := "" }
  | '?' :: rest => split ("help ".toList ++ rest)
  | '!' :: rest => { command := none, line := String.ofList ('!' :: rest) }
  | text => split text
where
  split (text : List Char) : InputLine :=
    { command := some (String.ofList (text.takeWhile isWordChar),
        String.ofList (Text.strip (text.dropWhile isWordChar)))
      line := String.ofList text }

def bareCommands : List String :=
  ["exit", "EOF", "help", "?"]

def ofString (line : String) : InputLine :=
  match Text.strip line.toList with
  | ':' :: rest => ofCommand rest
  | text =>
    if bareCommands.contains (String.ofList text) then ofCommand text
    else { command := none, line := String.ofList text }

end InputLine

structure Shell where
  session : Session
  mode : Mode
  lineNumber : Nat
  output : String

namespace Shell

def intro : String :=
  "lcbook :: untyped lambda calculus with definitions\nType '?' or 'help' for more information."

def prompt : String :=
  "> "

def helpText : String :=
  "Welcome to lcbook!\n\n"
    ++ "Type 'id = λx x' to add a definition to the book, and then '(id y)' to reduce \n"
    ++ "a term that uses it. Terms are reduced in normal order, applications are \n"
    ++ "always parenthesized and '@' can be typed instead of 'λ'.\n\n"
    ++ "Commands:\n"
    ++ "  :step   toggle printing every intermediate reduction step\n"
    ++ "  exit    leave the shell"

def new (session : Session) : Shell where
  session := session
  mode := .run
  lineNumber := 0
  output := ""

def print (shell : Shell) (line : String) : Shell :=
  { shell with output := shell.output ++ line ++ "\n" }

def evaluate (fuel : Nat) (shell : Shell) (line : String) :
    Option (Shell × Except Interruption Bool) := do
  let shell := { shell with lineNumber := shell.lineNumber + 1 }
  let (session, result) ← shell.session.evaluate fuel line (some shell.lineNumber) shell.mode
  match result with
  | .ok terms =>
    let shell := { shell with session }
    return (terms.foldl (fun shell term => shell.print term.render) shell, .ok false)
  | .error failure =>
    let (reporter, passed) := session.reporter.guard failure.interruption
    let shell := { shell with session := { session with reporter } }
    match passed with
    | none => return (shell, .ok false)
    | some interruption => return (shell, .error interruption)

def toggleStepped (shell : Shell) : Shell :=
  match shell.mode with
  | .stepped => { shell with mode := .run }.print "stepped output off"
  | _ => { shell with mode := .stepped }.print "stepped output on"

def perform (fuel : Nat) (shell : Shell) (line : String) :
    Option (Shell × Except Interruption Bool) :=
  let input := InputLine.ofString line
  if input.line.isEmpty then some (shell, .ok false)
  else
    match input.command with
    | some ("help", _) => some (shell.print helpText, .ok false)
    | some ("step", _) => some (shell.toggleStepped, .ok false)
    | some ("EOF", _) => some (shell.print "", .ok true)
    | some ("exit", _) => some (shell, .ok true)
    | _ => shell.evaluate fuel input.line

/--
React to lines until one leaves the shell. The end of the lines counts as the line `EOF`.
-/
def interact (fuel : Nat) (shell : Shell) : List String → Option (Shell × Except Interruption Unit)
  | [] => do
    let (shell, result) ← { shell with output := shell.output ++ prompt }.perform fuel "EOF"
    return (shell, result.map fun _ => ())
  | line :: rest => do
    let (shell, result) ← { shell with output := shell.output ++ prompt }.perform fuel line
    match result with
    | .ok false => shell.interact fuel rest
    | .ok true => return (shell, .ok ())
    | .error interruption => return (shell, .error interruption)

end Shell

end NamedLambda
