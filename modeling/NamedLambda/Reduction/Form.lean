import NamedLambda.Failure

/-!
This module contains the choices that govern a reduction: the form to reach and the order of steps.
-/

namespace NamedLambda

inductive Form where
  | normal
  | weakHead
  deriving DecidableEq, Repr, Inhabited

namespace Form

def names : List String :=
  ["nf", "wnf", "hnf", "whnf"]

def ofName : String → Except Failure Form
  | "nf" => .ok normal
  | "whnf" => .ok weakHead
  | name => .error (.notImplemented "form" name)

/--
Whether a term already has the form. A normal form is only found by the lack of a redex.
-/
def reached : Form → Term → Bool
  | normal, _ => false
  | weakHead, .app _ _ => false
  | weakHead, _ => true

end Form

inductive Order where
  | normal
  deriving DecidableEq, Repr, Inhabited

namespace Order

def names : List String :=
  ["normal", "applicative"]

def ofName : String → Except Failure Order
  | "normal" => .ok normal
  | name => .error (.notImplemented "order" name)

end Order

end NamedLambda
