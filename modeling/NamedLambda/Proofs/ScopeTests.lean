import NamedLambda.Proofs.Positions
import NamedLambda.Proofs.Resolution

/-!
This module contains the tests of the scope that resolution and the search for unbound variables make on
their way through a term. The one scope that is handed from node to node answers each of them as the path
from the root does, and is balanced when the term has been left.
-/

namespace NamedLambda

/--
A test whether a scope binds the name of the variable at a position, and its outcome.
-/
structure ScopeTest where
  position : List Direction
  name : String
  bound : Bool
  deriving DecidableEq, Repr

namespace ScopeTest

def below (direction : Direction) (test : ScopeTest) : ScopeTest :=
  { test with position := direction :: test.position }

theorem mem_map_below_iff (direction other : Direction) (rest : List Direction) (name : String)
    (bound : Bool) (tests : List ScopeTest)
    : { position := other :: rest, name, bound } ∈ tests.map (below direction) ↔
      other = direction ∧ { position := rest, name, bound } ∈ tests := by
  rw [List.mem_map]
  constructor
  · intro h
    rcases h with ⟨test, hmem, heq⟩
    simp only [below, ScopeTest.mk.injEq, List.cons.injEq] at heq
    rcases heq with ⟨⟨hdirection, hrest⟩, hname, hbound⟩
    subst hrest hname hbound
    exact ⟨hdirection.symm, hmem⟩
  · intro h
    rw [h.1]
    exact ⟨_, h.2, rfl⟩

theorem not_mem_map_below (direction : Direction) (name : String) (bound : Bool)
    (tests : List ScopeTest)
    : { position := [], name, bound } ∉ tests.map (below direction) := by
  simp [below]

/--
The test is about a variable of the term, and its outcome is what the count of the name at the start and
the abstractions on the path to the variable say.
-/
structure IsLexical (term : Term) (scope : Scope) (test : ScopeTest) : Prop where
  node?_eq : term.node? test.position = some (.var test.name)
  bound_iff : test.bound = true ↔
    0 < scope.count test.name + (term.bindersAbove test.position).count (some test.name)

structure IsFirstUnbound (tests before : List ScopeTest) (test : ScopeTest) : Prop where
  prefix_of : before ++ [test] <+: tests
  bound_before : ∀ earlier ∈ before, earlier.bound = true
  unbound : test.bound = false

namespace IsFirstUnbound

variable {tests before : List ScopeTest} {test : ScopeTest}

theorem map_below (h : IsFirstUnbound tests before test) (direction : Direction)
    : IsFirstUnbound (tests.map (below direction)) (before.map (below direction))
        (below direction test) where
  prefix_of := by
    have hmap := h.prefix_of.map (below direction)
    rwa [List.map_append] at hmap
  bound_before := by
    intro earlier hmem
    rcases List.mem_map.1 hmem with ⟨other, hother, heq⟩
    rw [← heq]
    exact h.bound_before other hother
  unbound := h.unbound

theorem append_right (h : IsFirstUnbound tests before test) (more : List ScopeTest)
    : IsFirstUnbound (tests ++ more) before test where
  prefix_of := h.prefix_of.trans (List.prefix_append tests more)
  bound_before := h.bound_before
  unbound := h.unbound

theorem append_left (h : IsFirstUnbound tests before test) {first : List ScopeTest}
    (hfirst : ∀ earlier ∈ first, earlier.bound = true)
    : IsFirstUnbound (first ++ tests) (first ++ before) test where
  prefix_of := by
    rw [List.append_assoc]
    exact (List.prefix_append_right_inj first).2 h.prefix_of
  bound_before := by
    intro earlier hmem
    cases List.mem_append.1 hmem with
    | inl hmem => exact hfirst earlier hmem
    | inr hmem => exact h.bound_before earlier hmem
  unbound := h.unbound

end IsFirstUnbound

end ScopeTest

namespace Term

/--
Resolve a term inside of a scope as `resolveIn` does, and also give back the tests that are made.
-/
def resolveTested (names : List String) : Term → Scope → Option (List ScopeTest × Term × Scope)
  | lam binder body, scope => do
    let (tests, body, scope) ← body.resolveTested names (scope.push binder)
    let scope ← scope.pop? binder
    return (tests.map (.below .body), lam binder body, scope)
  | var name, scope =>
    let test := { position := [], name, bound := scope.binds name }
    if !test.bound && names.contains name then some ([test], ref name, scope)
    else some ([test], var name, scope)
  | ref name, scope => some ([], ref name, scope)
  | app function argument, scope => do
    let (tests, function, scope) ← function.resolveTested names scope
    let (more, argument, scope) ← argument.resolveTested names scope
    return (tests.map (.below .function) ++ more.map (.below .argument),
      app function argument, scope)

/--
Check a term inside of a scope as `checkIn` does, and also give back the tests that are made, the one
that fails included.
-/
def checkTested : Term → Scope → List ScopeTest × Except Failure Scope
  | lam binder body, scope =>
    let (tests, result) := body.checkTested (scope.push binder)
    (tests.map (.below .body), do
      let scope ← result
      match scope.pop? binder with
      | some scope => .ok scope
      | none => .error (.fault (.missingKey (binderText binder))))
  | var name, scope =>
    let test := { position := [], name, bound := scope.binds name }
    ([test], if test.bound then .ok scope else .error (.unbound name))
  | ref _, scope => ([], .ok scope)
  | app function argument, scope =>
    let (tests, result) := function.checkTested scope
    match result with
    | .ok scope =>
      let (more, result) := argument.checkTested scope
      (tests.map (.below .function) ++ more.map (.below .argument), result)
    | .error failure => (tests.map (.below .function), .error failure)

theorem map_snd_resolveTested (names : List String) (term : Term) (scope : Scope)
    : (term.resolveTested names scope).map Prod.snd = term.resolveIn names scope := by
  induction term generalizing scope with
  | lam binder body ih =>
    simp only [resolveTested, resolveIn, ← ih]
    cases body.resolveTested names (scope.push binder) with
    | none => rfl
    | some found =>
      simp only [Option.bind_eq_bind, Option.bind_some, Option.map_some]
      cases found.2.2.pop? binder <;> rfl
  | var name =>
    simp only [resolveTested, resolveIn]
    split <;> rfl
  | ref name => rfl
  | app function argument ihf iha =>
    simp only [resolveTested, resolveIn, ← ihf, ← iha]
    cases function.resolveTested names scope with
    | none => rfl
    | some found =>
      simp only [Option.bind_eq_bind, Option.bind_some, Option.map_some]
      cases argument.resolveTested names found.2.2 <;> rfl

theorem snd_checkTested (term : Term) (scope : Scope)
    : (term.checkTested scope).2 = term.checkIn scope := by
  induction term generalizing scope with
  | lam binder body ih =>
    have hbody := ih (scope.push binder)
    cases hresult : (body.checkTested (scope.push binder)).2 with
    | error failure => simp [checkTested, checkIn, hresult, ← hbody, bind, Except.bind]
    | ok inner =>
      cases hpop : inner.pop? binder with
      | none => simp [checkTested, checkIn, hresult, ← hbody, hpop, bind, Except.bind]
      | some after => simp [checkTested, checkIn, hresult, ← hbody, hpop, bind, Except.bind]
  | var name => rfl
  | ref name => rfl
  | app function argument ihf iha =>
    simp only [checkTested, checkIn, ← ihf]
    cases (function.checkTested scope).2 with
    | error failure => rfl
    | ok middle => exact iha middle

/--
The tests that are made in a term at a place below `path` in a term inside of `scope`, from left to
right.
-/
def testsBelow (scope : Scope) : List (Option String) → Term → List ScopeTest
  | path, lam binder body => (body.testsBelow scope (binder :: path)).map (.below .body)
  | path, var name => [{ position := [], name, bound := scope.bindsBelow path name }]
  | _, ref _ => []
  | path, app function argument =>
    (function.testsBelow scope path).map (.below .function) ++
      (argument.testsBelow scope path).map (.below .argument)

section

variable {term : Term} {scope inner : Scope} {path : List (Option String)}

theorem resolveTested_eq (names : List String) (h : scope.IsAt path inner)
    : ∃ result after, term.resolveTested names inner =
          some (term.testsBelow scope path, result, after) ∧ scope.IsAt path after := by
  induction term generalizing path inner with
  | lam binder body ih =>
    rcases ih (h.push binder) with ⟨result, below, hbody, hbelow⟩
    rcases hbelow.exists_pop? with ⟨after, hpop, hafter⟩
    refine ⟨lam binder result, after, ?_, hafter⟩
    simp [resolveTested, testsBelow, hbody, hpop]
  | var name =>
    simp only [resolveTested, testsBelow, h.binds_eq]
    split
    · exact ⟨_, inner, rfl, h⟩
    · exact ⟨_, inner, rfl, h⟩
  | ref name => exact ⟨ref name, inner, rfl, h⟩
  | app function argument ihf iha =>
    rcases ihf h with ⟨function', middle, hfunction, hmiddle⟩
    rcases iha hmiddle with ⟨argument', after, hargument, hafter⟩
    refine ⟨app function' argument', after, ?_, hafter⟩
    simp [resolveTested, testsBelow, hfunction, hargument]

theorem checkTested_eq (h : scope.IsAt path inner)
    : (∃ after, term.checkTested inner = (term.testsBelow scope path, .ok after) ∧
        scope.IsAt path after ∧ ∀ test ∈ term.testsBelow scope path, test.bound = true) ∨
      ∃ before test, ScopeTest.IsFirstUnbound (term.testsBelow scope path) before test ∧
        term.checkTested inner = (before ++ [test], .error (.unbound test.name)) := by
  induction term generalizing path inner with
  | lam binder body ih =>
    rcases ih (h.push binder) with ⟨below, hbody, hbelow, hbound⟩ | ⟨before, test, hfirst, hbody⟩
    · rcases hbelow.exists_pop? with ⟨after, hpop, hafter⟩
      refine Or.inl ⟨after, ?_, hafter, ?_⟩
      · simp only [checkTested, testsBelow, hbody, bind, Except.bind, hpop]
      · simpa [testsBelow, ScopeTest.below] using hbound
    · refine Or.inr ⟨_, _, hfirst.map_below .body, ?_⟩
      simp [checkTested, hbody, bind, Except.bind, ScopeTest.below]
  | var name =>
    cases hbinds : scope.bindsBelow path name with
    | true =>
      refine Or.inl ⟨inner, ?_, h, ?_⟩
      · simp [checkTested, testsBelow, h.binds_eq, hbinds]
      · simp [testsBelow, hbinds]
    | false =>
      refine Or.inr ⟨[], { position := [], name, bound := false }, ⟨?_, ?_, rfl⟩, ?_⟩
      · simp [testsBelow, hbinds]
      · simp
      · simp [checkTested, h.binds_eq, hbinds]
  | ref name => exact Or.inl ⟨inner, rfl, h, by simp [testsBelow]⟩
  | app function argument ihf iha =>
    rcases ihf h with ⟨middle, hfunction, hmiddle, hbound⟩ | ⟨before, test, hfirst, hfunction⟩
    · have hbound' : ∀ earlier ∈ (function.testsBelow scope path).map (ScopeTest.below .function),
          earlier.bound = true := by
        simpa [ScopeTest.below] using hbound
      rcases iha hmiddle with ⟨after, hargument, hafter, hmore⟩ | ⟨before, test, hfirst, hargument⟩
      · refine Or.inl ⟨after, ?_, hafter, ?_⟩
        · simp only [checkTested, testsBelow, hfunction, hargument]
        · intro test hmem
          cases List.mem_append.1 hmem with
          | inl hmem => exact hbound' test hmem
          | inr hmem =>
            rcases List.mem_map.1 hmem with ⟨other, hother, heq⟩
            rw [← heq]
            exact hmore other hother
      · refine Or.inr ⟨_, _, (hfirst.map_below .argument).append_left hbound', ?_⟩
        simp [checkTested, hfunction, hargument, ScopeTest.below]
    · refine Or.inr ⟨_, _, (hfirst.map_below .function).append_right _, ?_⟩
      simp [checkTested, hfunction, ScopeTest.below]

end

theorem mem_testsBelow_iff (term : Term) (scope : Scope) (path : List (Option String))
    (position : List Direction) (name : String) (bound : Bool)
    : { position, name, bound } ∈ term.testsBelow scope path ↔
      term.node? position = some (.var name) ∧
        bound = scope.bindsBelow (term.bindersAbove position ++ path) name := by
  induction term generalizing path position with
  | lam binder body ih =>
    cases position with
    | nil => simp [testsBelow, ScopeTest.not_mem_map_below, node?]
    | cons direction rest =>
      rw [testsBelow, ScopeTest.mem_map_below_iff, ih]
      cases direction with
      | body => simp [node?, bindersAbove]
      | function => simp [node?]
      | argument => simp [node?]
  | var other =>
    cases position with
    | nil =>
      simp only [testsBelow, List.mem_singleton, ScopeTest.mk.injEq, true_and, node?,
        Option.some.injEq, Node.var.injEq, bindersAbove, List.nil_append]
      constructor
      · intro h
        exact ⟨h.1.symm, by rw [h.1, h.2]⟩
      · intro h
        exact ⟨h.1.symm, by rw [h.1, h.2]⟩
    | cons direction rest => simp [testsBelow, node?]
  | ref other =>
    cases position with
    | nil => simp [testsBelow, node?]
    | cons direction rest => simp [testsBelow, node?]
  | app function argument ihf iha =>
    rw [testsBelow, List.mem_append]
    cases position with
    | nil => simp [ScopeTest.not_mem_map_below, node?]
    | cons direction rest =>
      rw [ScopeTest.mem_map_below_iff, ScopeTest.mem_map_below_iff, ihf, iha]
      cases direction with
      | body => simp [node?]
      | function => simp [node?, bindersAbove]
      | argument => simp [node?, bindersAbove]

theorem mem_testsBelow_nil_iff (term : Term) (scope : Scope) (test : ScopeTest)
    : test ∈ term.testsBelow scope [] ↔ test.IsLexical term scope := by
  rw [mem_testsBelow_iff, List.append_nil]
  constructor
  · intro h
    exact ⟨h.1, by rw [h.2, Scope.bindsBelow, decide_eq_true_iff]⟩
  · intro h
    refine ⟨h.node?_eq, ?_⟩
    rw [Scope.bindsBelow, Bool.eq_iff_iff, decide_eq_true_iff]
    exact h.bound_iff

/--
Whatever a scope counts at the start, resolution tests it at every variable of a term, the search for
unbound variables at every one up to the first that fails, and each outcome is the lexical one. No
abstraction that is left is missing in the scope, and a term that has been left leaves all counts as
they were.
-/
theorem scopeTests_lexical_balanced (names : List String) (term : Term) (scope : Scope)
    : ∃ tests : List ScopeTest, (∀ test, test ∈ tests ↔ test.IsLexical term scope) ∧
        (∃ result after, term.resolveTested names scope = some (tests, result, after) ∧
          term.resolveIn names scope = some (result, after) ∧
          ∀ name, after.count name = scope.count name) ∧
        ((∃ after, term.checkTested scope = (tests, .ok after) ∧
            term.checkIn scope = .ok after ∧ (∀ test ∈ tests, test.bound = true) ∧
            ∀ name, after.count name = scope.count name) ∨
          ∃ before test, ScopeTest.IsFirstUnbound tests before test ∧
            term.checkTested scope = (before ++ [test], .error (.unbound test.name)) ∧
            term.checkIn scope = .error (.unbound test.name)) := by
  refine ⟨term.testsBelow scope [], mem_testsBelow_nil_iff term scope, ?_, ?_⟩
  · rcases resolveTested_eq names scope.isAt_nil with ⟨result, after, htested, hafter⟩
    refine ⟨result, after, htested, ?_, ?_⟩
    · rw [← map_snd_resolveTested, htested]
      rfl
    · simpa using hafter.count_eq
  · rcases checkTested_eq scope.isAt_nil with
      ⟨after, htested, hafter, hbound⟩ | ⟨before, test, hfirst, htested⟩
    · refine Or.inl ⟨after, htested, ?_, hbound, ?_⟩
      · rw [← snd_checkTested, htested]
      · simpa using hafter.count_eq
    · refine Or.inr ⟨before, test, hfirst, htested, ?_⟩
      rw [← snd_checkTested, htested]

example : (checkTested (lam (some "x") (app (lam (some "x") (var "x")) (var "x"))) ⟨[("x", -1)]⟩).1 =
    [⟨[.body, .function, .body], "x", true⟩, ⟨[.body, .argument], "x", false⟩] := by
  decide

end Term

end NamedLambda
