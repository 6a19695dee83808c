import NamedLambda.Check
import NamedLambda.Files
import NamedLambda.Reduction.Reduce
import NamedLambda.Report.Reporter

/-!
This module contains sessions: a book, the choices that govern its reductions, and the results of the
last one. An operation gives the session after it, also when it fails. Operations that reduce take fuel
and have no outcome if a reduction without a limit uses it up.
-/

namespace NamedLambda

open Source (parseBook parseStatement)

inductive Mode where
  | run
  | stepped
  | unknown (name : String)
  deriving DecidableEq, Repr, Inhabited

namespace Mode

def name : Mode → String
  | run => "run"
  | stepped => "run-stepped"
  | unknown name => name

def ofName : String → Mode
  | "run" => run
  | "run-stepped" => stepped
  | name => unknown name

end Mode

structure Session where
  path : String
  form : Form
  order : Order
  limit : Option Limit
  book : Book
  results : List Term
  reporter : Reporter

namespace Session

def interactivePath : String :=
  "<in>"

def create (files : String → FileEntry) (reporter : Reporter) (path : Option String)
    (form order : String) (limit : Option Limit) : Except Failure Session := do
  let shownPath := path.getD interactivePath
  let form ← Form.ofName form
  let order ← Order.ofName order
  let book ←
    match path with
    | none => pure Book.empty
    | some path => do
      let code ← readText files path
      (parseBook code).mapError .syntaxError
  return {
    path := shownPath
    form, order, limit, book
    results := []
    reporter := reporter.register shownPath }

/--
Resolve the references of the book and check that no variable is unbound. The references stay resolved
if the check fails.
-/
def load (session : Session) (requireMain : Bool) : Session × Except Failure Unit :=
  match if requireMain then session.book.checkMain else .ok () with
  | .error failure => (session, .error failure)
  | .ok () =>
    let session := { session with book := session.book.resolve }
    (session, session.book.check)

def stuckWarning : Diagnostic :=
  (Diagnostic.about [.text "no redex left"] "").hidden

def reduce (fuel : Nat) (session : Session) (term : Term) (mode : Mode) :
    Option (Session × Except Failure (List Term)) :=
  let fuel := fuelFor session.limit fuel
  match mode with
  | .run => do
    let reduction ← NamedLambda.reduce session.book session.form session.order session.limit 0 fuel term
    match reduction.result with
    | .error failure => return (session, .error failure)
    | .ok final =>
      let reporter :=
        if final.stuck then (session.reporter.warn stuckWarning).1 else session.reporter
      return ({ session with reporter }, .ok [final.term])
  | .stepped => do
    let reduction ← reduceStepped session.book session.form session.order session.limit 0 fuel term
    return (session, reduction.result)
  | .unknown name => some (session, .error (.unknownMode name))

def run (fuel : Nat) (session : Session) (mode : Mode) :
    Option (Session × Except Failure (List Term)) :=
  match session.book.find? "main" with
  | none => some (session, .error (.fault (.missingKey "main")))
  | some body => do
    let (session, result) ← session.reduce fuel body mode
    match result with
    | .error failure => return (session, .error failure)
    | .ok terms => return ({ session with results := terms }, .ok terms)

/--
Add a definition to the book. If it leaves a variable unbound, the definition that it replaced is put
back, or the new one is removed.
-/
def define (session : Session) (definition : Definition) : Session × Except Failure Unit :=
  let book := (session.book.define definition).resolve
  match book.check with
  | .ok () => ({ session with book }, .ok ())
  | .error failure =>
    let book :=
      match session.book.find? definition.name with
      | none => book.erase definition.name
      | some body => book.define { name := definition.name, body }
    ({ session with book }, .error failure)

def evaluate (fuel : Nat) (session : Session) (line : String) (number : Option Int)
    (mode : Mode) : Option (Session × Except Failure (List Term)) :=
  let session :=
    { session with reporter := session.reporter.begin session.path (some line) number }
  let succeed (session : Session) (terms : List Term) : Session × Except Failure (List Term) :=
    ({ session with
        results := terms
        reporter := session.reporter.register session.path }, .ok terms)
  match parseStatement line with
  | .error error => some (session, .error (.syntaxError error))
  | .ok (.definition definition) =>
    match session.define definition with
    | (session, .error failure) => some (session, .error failure)
    | (session, .ok ()) => some (succeed session [])
  | .ok (.term term) =>
    let term := term.resolve session.book.names
    match term.check with
    | .error failure => some (session, .error failure)
    | .ok () => do
      let (session, result) ← session.reduce fuel term mode
      match result with
      | .error failure => return (session, .error failure)
      | .ok terms => return succeed session terms

def pop (session : Session) : Session × Except Failure Term :=
  match session.results.getLast? with
  | some term => ({ session with results := session.results.dropLast }, .ok term)
  | none => (session, .error (.fault .noResult))

end Session

end NamedLambda
