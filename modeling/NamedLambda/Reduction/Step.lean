import NamedLambda.Book
import NamedLambda.Fault
import NamedLambda.Reduction.Substitute

/-!
This module contains single reduction steps in normal order: the leftmost outermost redex first.
-/

namespace NamedLambda

def Book.unfold (book : Book) (name : String) : Except Fault Term :=
  match book.find? name with
  | some body => .ok body
  | none => .error (.missingKey name)

structure Progress where
  term : Term
  reduced : Bool
  deriving DecidableEq, Repr, Inhabited

/--
Try one step in normal order. The function of an application is exhausted before its argument is
touched, and the argument of a variable is not touched at all. A reference in function position is
unfolded by a step of its own.
-/
def Term.step (book : Book) : Term → Except Fault Progress
  | lam binder body => do
    let body ← body.step book
    return { term := lam binder body.term, reduced := body.reduced }
  | var name => return { term := var name, reduced := false }
  | ref name => return { term := ← book.unfold name, reduced := true }
  | app (lam none body) _ => return { term := body, reduced := true }
  | app (lam (some name) body) argument =>
    return { term := body.substitute (some name) argument, reduced := true }
  | app (var name) argument => return { term := app (var name) argument, reduced := false }
  | app (ref name) argument => return { term := app (← book.unfold name) argument, reduced := true }
  | app (app function first) argument => do
    let function ← (app function first).step book
    if function.reduced then
      return { term := app function.term argument, reduced := true }
    else
      let argument ← argument.step book
      return { term := app function.term argument.term, reduced := argument.reduced }

end NamedLambda
