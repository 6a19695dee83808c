import NamedLambda.Failure
import NamedLambda.Resolve

/-!
This module contains the search for unbound variables. References always pass.
-/

namespace NamedLambda

namespace Term

/--
Check a term inside of a scope, and give back the scope as it is after the term has been left. The
first unbound variable from left to right is reported.
-/
def checkIn : Term → Scope → Except Failure Scope
  | lam binder body, scope => do
    let scope ← body.checkIn (scope.push binder)
    match scope.pop? binder with
    | some scope => .ok scope
    | none => .error (.fault (.missingKey (binderText binder)))
  | var name, scope => if scope.binds name then .ok scope else .error (.unbound name)
  | ref _, scope => .ok scope
  | app function argument, scope => do
    let scope ← function.checkIn scope
    argument.checkIn scope

def check (term : Term) : Except Failure Unit :=
  (term.checkIn .empty).map fun _ => ()

end Term

namespace Book

def check (book : Book) : Except Failure Unit :=
  book.definitions.forM fun definition => definition.body.check

def checkMain (book : Book) : Except Failure Unit :=
  if book.names.contains "main" then .ok () else .error .missingMain

end Book

end NamedLambda
