import NamedLambda.Session

/-!
This module contains the tasks and options of the program, and what can be wrong with a command line.
-/

namespace NamedLambda.CommandLine

inductive Task where
  | reduce (mode : Mode)
  | interactive
  deriving DecidableEq, Repr, Inhabited

namespace Task

def names : List String :=
  ["run", "run-stepped", "interactive"]

def ofName? : String → Option Task
  | "run" => some (.reduce .run)
  | "run-stepped" => some (.reduce .stepped)
  | "interactive" => some .interactive
  | _ => none

end Task

structure Options where
  task : Task
  path : Option String
  form : Option String
  order : Option String
  limit : Option Limit
  deriving DecidableEq, Repr, Inhabited

/--
The path, form and order of a command line, none of which may be missing. The form is looked up before
the order is missed.
-/
def Options.names (options : Options) : Except Failure (String × String × String) := do
  let given (name : Option String) : Except Failure String :=
    match name with
    | some name => .ok name
    | none => .error (.fault .blankName)
  let path ← given options.path
  let form ← given options.form
  let _ ← Form.ofName form
  let order ← given options.order
  return (path, form, order)

inductive Flag where
  | help
  | form
  | order
  | limit
  deriving DecidableEq, Repr, Inhabited

namespace Flag

def all : List Flag :=
  [help, form, order, limit]

def letter : Flag → Char
  | help => 'h'
  | form => 'f'
  | order => 'o'
  | limit => 'l'

def word : Flag → String
  | help => "help"
  | form => "form"
  | order => "order"
  | limit => "limit"

def ofLetter? (c : Char) : Option Flag :=
  all.find? (fun flag => flag.letter == c)

def title (flag : Flag) : String :=
  "-" ++ String.singleton flag.letter ++ "/--" ++ flag.word

end Flag

inductive Mistake where
  | ambiguous (text : String) (candidates : List Flag)
  | noValue (flag : Flag)
  | surplusValue (flag : Flag) (text : String)
  | invalidChoice (argument text : String) (choices : List String)
  | invalidInteger (flag : Flag) (text : String)
  | missing (arguments : List String)
  | unrecognized (arguments : List String)
  deriving DecidableEq, Repr, Inhabited

def Mistake.message : Mistake → String
  | ambiguous text candidates =>
    "ambiguous option: " ++ text ++ " could match "
      ++ ", ".intercalate (candidates.map fun flag => "--" ++ flag.word)
  | noValue flag => "argument " ++ flag.title ++ ": expected one argument"
  | surplusValue flag text =>
    "argument " ++ flag.title ++ ": ignored explicit argument " ++ Text.quote text
  | invalidChoice argument text choices =>
    "argument " ++ argument ++ ": invalid choice: " ++ Text.quote text ++ " (choose from "
      ++ ", ".intercalate (choices.map Text.quote) ++ ")"
  | invalidInteger flag text =>
    "argument " ++ flag.title ++ ": invalid int value: " ++ Text.quote text
  | missing arguments => "the following arguments are required: " ++ ", ".intercalate arguments
  | unrecognized arguments => "unrecognized arguments: " ++ " ".intercalate arguments

inductive Refusal where
  | help
  | mistake (cause : Mistake)
  deriving DecidableEq, Repr, Inhabited

end NamedLambda.CommandLine
