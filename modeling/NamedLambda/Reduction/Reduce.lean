import NamedLambda.Reduction.Form
import NamedLambda.Reduction.Limit
import NamedLambda.Reduction.Step

/-!
This module contains whole reductions: to the result, or with every term on the way. Since a term need
not have the form that is asked for, they take `fuel`, the number of steps that may be tried, and have
no outcome if that is used up. Under a limit on the number of steps `fuelFor` is always enough.
-/

namespace NamedLambda

structure Reduction (α : Type) where
  result : Except Failure α
  steps : Nat
  deriving Inhabited

structure Final where
  term : Term
  stuck : Bool
  deriving DecidableEq, Repr, Inhabited

/--
Try one step, which has to keep within the limit if it reduces something. `steps` is the number of those
before it that did.
-/
def Order.step (order : Order) (book : Book) (limit : Option Limit) (steps : Nat) (term : Term) :
    Reduction Progress :=
  let tried :=
    match order with
    | .normal => term.step book
  match tried with
  | .error fault => { result := .error (.fault fault), steps }
  | .ok progress =>
    if progress.reduced then
      match limit.bind (fun limit => limit.exceeded? (steps + 1)) with
      | some failure => { result := .error failure, steps := steps + 1 }
      | none => { result := .ok progress, steps := steps + 1 }
    else { result := .ok progress, steps }

def reduce (book : Book) (form : Form) (order : Order) (limit : Option Limit) (steps : Nat) :
    (fuel : Nat) → Term → Option (Reduction Final)
  | 0, _ => none
  | fuel + 1, term =>
    if form.reached term then some { result := .ok { term, stuck := false }, steps }
    else
      let tried := order.step book limit steps term
      match tried.result with
      | .error failure => some { result := .error failure, steps := tried.steps }
      | .ok progress =>
        if progress.reduced then reduce book form order limit tried.steps fuel progress.term
        else some { result := .ok { term := progress.term, stuck := true }, steps := tried.steps }

def reduceStepped (book : Book) (form : Form) (order : Order) (limit : Option Limit) (steps : Nat) :
    (fuel : Nat) → Term → Option (Reduction (List Term))
  | 0, _ => none
  | fuel + 1, term =>
    if form.reached term then some { result := .ok [term], steps }
    else
      let tried := order.step book limit steps term
      match tried.result with
      | .error failure => some { result := .error failure, steps := tried.steps }
      | .ok progress =>
        if progress.reduced then do
          let rest ← reduceStepped book form order limit tried.steps fuel progress.term
          return { rest with result := rest.result.map (term :: ·) }
        else some { result := .ok [term], steps := tried.steps }

def fuelFor (limit : Option Limit) (fuel : Nat) : Nat :=
  match limit with
  | some limit => limit.allowance + 1
  | none => fuel

end NamedLambda
