import NamedLambda.Book
import NamedLambda.Scope

/-!
This module contains the resolution of names: a variable that no abstraction around it binds, and whose
name is defined, becomes a reference.
-/

namespace NamedLambda

namespace Term

/--
Resolve a term inside of a scope, and give back the scope as it is after the term has been left. There
is no result if a binder is left that was never entered.
-/
def resolveIn (names : List String) : Term → Scope → Option (Term × Scope)
  | lam binder body, scope => do
    let (body, scope) ← body.resolveIn names (scope.push binder)
    let scope ← scope.pop? binder
    return (lam binder body, scope)
  | var name, scope =>
    if !scope.binds name && names.contains name then some (ref name, scope)
    else some (var name, scope)
  | ref name, scope => some (ref name, scope)
  | app function argument, scope => do
    let (function, scope) ← function.resolveIn names scope
    let (argument, scope) ← argument.resolveIn names scope
    return (app function argument, scope)

theorem exists_resolveIn (names : List String) (term : Term) (scope : Scope) :
    ∃ result after, term.resolveIn names scope = some (result, after) ∧
      ∀ name, scope.declares name → after.declares name := by
  induction term generalizing scope with
  | lam binder body ih =>
    obtain ⟨body', inner, eq, declared⟩ := ih (scope.push binder)
    have pops : ∃ after, inner.pop? binder = some after := by
      cases binder with
      | none => exact ⟨inner, rfl⟩
      | some name =>
        have := declared name (by simp [Scope.declares_push])
        exact ⟨_, by simp [Scope.pop?, this]; rfl⟩
    obtain ⟨after, popped⟩ := pops
    refine ⟨lam binder body', after, by simp [resolveIn, eq, popped], fun name h => ?_⟩
    exact Scope.declares_pop? popped (declared name (by simp [Scope.declares_push, h]))
  | var name =>
    cases h : !scope.binds name && names.contains name
    · exact ⟨var name, scope, by rw [resolveIn, h]; rfl, fun _ declared => declared⟩
    · exact ⟨ref name, scope, by rw [resolveIn, h]; rfl, fun _ declared => declared⟩
  | ref name => exact ⟨ref name, scope, rfl, fun _ declared => declared⟩
  | app function argument ihf iha =>
    obtain ⟨function', middle, eqf, declaredf⟩ := ihf scope
    obtain ⟨argument', after, eqa, declareda⟩ := iha middle
    exact ⟨app function' argument', after, by simp [resolveIn, eqf, eqa],
      fun name h => declareda name (declaredf name h)⟩

theorem isSome_resolveIn (names : List String) (term : Term) (scope : Scope) :
    (term.resolveIn names scope).isSome := by
  obtain ⟨result, after, eq, _⟩ := exists_resolveIn names term scope
  simp [eq]

def resolve (names : List String) (term : Term) : Term :=
  ((term.resolveIn names .empty).get (isSome_resolveIn names term .empty)).1

end Term

def Book.resolve (book : Book) : Book :=
  book.mapBodies (Term.resolve book.names)

end NamedLambda
