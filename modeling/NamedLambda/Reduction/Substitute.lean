import NamedLambda.Term

/-!
This module contains substitution without renaming: a free variable of the substituted term is captured
where an abstraction binds its name.
-/

namespace NamedLambda.Term

/--
Put `value` in the place of the variable `name`, except below an abstraction that binds it. An erased
binder counts as binding no name at all, which is `none`.
-/
def substitute (term : Term) (name : Option String) (value : Term) : Term :=
  match term with
  | lam binder body =>
    if binder = name then lam binder body else lam binder (body.substitute name value)
  | var other => if some other = name then value else var other
  | ref other => ref other
  | app function argument =>
    app (function.substitute name value) (argument.substitute name value)

end NamedLambda.Term
