import NamedLambda.Fault
import NamedLambda.Text.Paint
import NamedLambda.Text.Slice

/-!
This module contains diagnostics: messages about an expression, part of which is marked when the
expression is shown.
-/

namespace NamedLambda

open Text (Colour Paint)

/--
A part of a message: text, an expression, or a whole message that was made in two versions, one with
its expressions in bold and one without marks.
-/
inductive Span where
  | text (text : String)
  | expression (text : String)
  | made (plain painted : String)
  deriving DecidableEq, Repr, Inhabited

structure Diagnostic where
  message : List Span
  expression : String
  start : Int
  stop : Int
  shown : Bool
  internal : Bool
  deriving DecidableEq, Repr, Inhabited

namespace Diagnostic

def text (diagnostic : Diagnostic) : String :=
  String.join <| diagnostic.message.map fun
    | .text text => text
    | .expression text => text
    | .made plain _ => plain

def painted (paint : Paint) (diagnostic : Diagnostic) : String :=
  String.join <| diagnostic.message.map fun
    | .text text => text
    | .expression text => paint.bold text
    | .made _ painted => painted

/--
Fill a template, without marks and then with its expressions in bold. The first expression is the one at
fault, up to its end if `stop` is `-1`.
-/
def ofTemplate (paint : Paint) (template : String) (expressions : List String) (start stop : Int)
    (shown internal : Bool) : Except Fault Diagnostic := do
  let fill (expressions : List String) : Except Fault String :=
    (Text.Template.fill template expressions).mapError .badTemplate
  let plain ← fill expressions
  let painted ← fill (expressions.map paint.bold)
  match expressions with
  | [] => throw .noItem
  | expression :: _ =>
    return {
      message := [.made plain painted]
      expression, start
      stop := if stop = -1 then expression.length else stop
      shown, internal }

def about (message : List Span) (expression : String) : Diagnostic where
  message := message
  expression := expression
  start := 0
  stop := expression.length
  shown := true
  internal := false

def hidden (diagnostic : Diagnostic) : Diagnostic :=
  { diagnostic with shown := false }

def markEnd (diagnostic : Diagnostic) : Int :=
  max diagnostic.stop 1

def maxRoom : Nat :=
  0x1000000000

def repeated (expression : String) (c : Char) (count : Int) : Except Fault String :=
  -- A line that goes far beyond its expression is too long to be written.
  if count ≤ max maxRoom expression.length then
    if count < -0x8000000000000000 then .error .countTooLarge
    else .ok (String.ofList (List.replicate count.toNat c))
  else .error (if Text.isIndex count then .outOfMemory else .countTooLarge)

def excerpt (paint : Paint) (colour : Colour) (diagnostic : Diagnostic) : Except Fault String := do
  let expression := diagnostic.expression.toList
  let start := diagnostic.start
  let stop := diagnostic.markEnd
  let between (start stop : Int) : String := String.ofList (Text.slice expression start stop)
  let indentation ← repeated diagnostic.expression ' ' start
  let underline ← repeated diagnostic.expression '~' (stop - start - 1)
  return "  " ++ between 0 start ++ paint.strong colour (between start stop)
    ++ between stop expression.length ++ "\n"
    ++ "  " ++ indentation ++ paint.strong colour ("^" ++ underline)

def hasExcerpt (diagnostic : Diagnostic) : Bool :=
  !diagnostic.internal && !diagnostic.expression.isEmpty && diagnostic.shown

end Diagnostic

end NamedLambda
