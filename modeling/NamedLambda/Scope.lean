/-!
This module contains scopes: for every name, how many of the abstractions around a place bind it. A
count and not a mere set of names is needed, because leaving an inner abstraction must leave an outer
one of the same name in force.
-/

namespace NamedLambda

structure Scope where
  counts : List (String × Int)
  deriving DecidableEq, Repr, Inhabited

namespace Scope

def empty : Scope where
  counts := []

def count (scope : Scope) (name : String) : Int :=
  (scope.counts.lookup name).getD 0

def declares (scope : Scope) (name : String) : Bool :=
  (scope.counts.lookup name).isSome

def binds (scope : Scope) (name : String) : Bool :=
  0 < scope.count name

def set (scope : Scope) (name : String) (value : Int) : Scope where
  counts := go scope.counts
where
  go : List (String × Int) → List (String × Int)
    | [] => [(name, value)]
    | (entry, n) :: rest => if name == entry then (entry, value) :: rest else (entry, n) :: go rest

def push (scope : Scope) : Option String → Scope
  | none => scope
  | some name => scope.set name (scope.count name + 1)

/--
Leave an abstraction. Its binder has to be a name that was entered before.
-/
def pop? (scope : Scope) : Option String → Option Scope
  | none => some scope
  | some name =>
    if scope.declares name then some (scope.set name (scope.count name - 1)) else none

theorem set.go_lookup (name : String) (value : Int) (counts : List (String × Int)) (other : String) :
    (set.go name value counts).lookup other =
      if other == name then some value else counts.lookup other := by
  induction counts with
  | nil => cases h : other == name <;> simp [set.go, List.lookup_cons, h]
  | cons entry rest ih =>
    obtain ⟨key, n⟩ := entry
    cases h : name == key with
    | true =>
      obtain rfl := beq_iff_eq.1 h
      cases h' : other == name <;> simp [set.go, List.lookup_cons, h']
    | false =>
      cases h' : other == key with
      | true =>
        obtain rfl := beq_iff_eq.1 h'
        have : (other == name) = false := by rw [BEq.comm, h]
        simp [set.go, h, this]
      | false => simp [set.go, List.lookup_cons, h, h', ih]

theorem count_set (scope : Scope) (name : String) (value : Int) (other : String) :
    (scope.set name value).count other = if other == name then value else scope.count other := by
  simp only [count, set, set.go_lookup]
  split <;> rfl

theorem declares_set (scope : Scope) (name : String) (value : Int) (other : String) :
    (scope.set name value).declares other = (other == name || scope.declares other) := by
  simp only [declares, set, set.go_lookup]
  cases other == name <;> simp

theorem declares_push (scope : Scope) (binder : Option String) (other : String) :
    (scope.push binder).declares other = (binder == some other || scope.declares other) := by
  cases binder with
  | none => rfl
  | some name =>
    simp only [push, declares_set, Option.some_beq_some]
    rw [BEq.comm]

theorem declares_pop? {scope rest : Scope} {binder : Option String}
    (h : scope.pop? binder = some rest) {other : String} (declared : scope.declares other) :
    rest.declares other := by
  cases binder with
  | none =>
    simp only [pop?, Option.some.injEq] at h
    exact h ▸ declared
  | some name =>
    simp only [pop?, Option.ite_none_right_eq_some, Option.some.injEq] at h
    obtain ⟨_, rfl⟩ := h
    simp [declares_set, declared]

end Scope

end NamedLambda
