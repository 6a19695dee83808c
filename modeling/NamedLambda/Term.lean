/-!
This module contains the terms of the calculus and the text they are written as.
-/

namespace NamedLambda

/--
A term over variables and references to definitions. An abstraction whose binder is `none` erases its
argument: no variable can refer to it.
-/
inductive Term where
  | lam (binder : Option String) (body : Term)
  | var (name : String)
  | ref (name : String)
  | app (function argument : Term)
  deriving DecidableEq, Repr, Inhabited

namespace Term

def binderText : Option String → String
  | none => "*"
  | some name => name

def render : Term → String
  | lam binder body => "λ" ++ binderText binder ++ " " ++ body.render
  | var name => name
  | ref name => name
  | app function argument => "(" ++ function.render ++ " " ++ argument.render ++ ")"

end Term

end NamedLambda
