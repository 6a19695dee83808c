import NamedLambda.Check
import NamedLambda.Proofs.Variables

/-!
This module contains the lexical view of scopes: what a scope counts at a place of a term are the
abstractions on the path to that place. Resolution and the search for unbound variables are described
by these paths, and from that by free variables and references.
-/

namespace NamedLambda

namespace Scope

@[simp]
theorem count_empty (name : String) : empty.count name = 0 := by
  rfl

theorem count_push (scope : Scope) (binder : Option String) (name : String)
    : (scope.push binder).count name =
      scope.count name + if binder = some name then 1 else 0 := by
  cases binder with
  | none => simp [push]
  | some other =>
    simp only [push, count_set, beq_iff_eq, Option.some.injEq]
    by_cases h : name = other
    · simp [h]
    · simp [h, Ne.symm h]

theorem count_pop? {scope rest : Scope} {binder : Option String} (h : scope.pop? binder = some rest)
    (name : String)
    : rest.count name = scope.count name - if binder = some name then 1 else 0 := by
  cases binder with
  | none =>
    simp only [pop?, Option.some.injEq] at h
    simp [h]
  | some other =>
    simp only [pop?, Option.ite_none_right_eq_some, Option.some.injEq] at h
    rw [← h.2, count_set]
    simp only [beq_iff_eq, Option.some.injEq]
    by_cases h : name = other
    · simp [h]
    · simp [h, Ne.symm h]

def bindsBelow (scope : Scope) (path : List (Option String)) (name : String) : Bool :=
  0 < scope.count name + path.count (some name)

@[simp]
theorem bindsBelow_empty (path : List (Option String)) (name : String)
    : empty.bindsBelow path name = decide (some name ∈ path) := by
  simp only [bindsBelow, count_empty, Int.zero_add]
  apply decide_eq_decide.2
  rw [← List.count_pos_iff]
  omega

/--
`inner` is the scope at a place below `path` in a term inside of `scope`.
-/
structure IsAt (scope : Scope) (path : List (Option String)) (inner : Scope) : Prop where
  count_eq : ∀ name, inner.count name = scope.count name + path.count (some name)
  declares : ∀ name, scope.declares name ∨ some name ∈ path → inner.declares name

theorem isAt_nil (scope : Scope) : scope.IsAt [] scope where
  count_eq := by simp
  declares := by simp

namespace IsAt

variable {scope inner : Scope} {path : List (Option String)}

theorem push (h : scope.IsAt path inner) (binder : Option String)
    : scope.IsAt (binder :: path) (inner.push binder) where
  count_eq := by
    intro name
    rw [count_push, h.count_eq, List.count_cons]
    simp only [beq_iff_eq]
    split <;> omega
  declares := by
    intro name hname
    rw [declares_push]
    by_cases heq : binder = some name
    · simp [heq]
    · have : scope.declares name ∨ some name ∈ path := by
        simpa [Ne.symm heq] using hname
      simp [h.declares name this]

-- The binder was declared when it was entered, so that leaving it never fails.
theorem exists_pop? {binder : Option String} (h : scope.IsAt (binder :: path) inner)
    : ∃ rest, inner.pop? binder = some rest ∧ scope.IsAt path rest := by
  have hpop : ∃ rest, inner.pop? binder = some rest := by
    cases binder with
    | none => exact ⟨inner, rfl⟩
    | some name =>
      have := h.declares name (by simp)
      simp only [pop?]
      rw [if_pos this]
      exact ⟨_, rfl⟩
  rcases hpop with ⟨rest, hrest⟩
  refine ⟨rest, hrest, ?_, ?_⟩
  · intro name
    rw [count_pop? hrest, h.count_eq, List.count_cons]
    simp only [beq_iff_eq]
    split <;> omega
  · intro name hname
    apply declares_pop? hrest
    apply h.declares
    cases hname with
    | inl hscope => exact Or.inl hscope
    | inr hpath => exact Or.inr (List.mem_cons_of_mem binder hpath)

theorem binds_eq (h : scope.IsAt path inner) (name : String)
    : inner.binds name = scope.bindsBelow path name := by
  simp [binds, bindsBelow, h.count_eq]

end IsAt

end Scope

namespace Failure

def ofUnbound : List String → Except Failure Unit
  | [] => .ok ()
  | name :: _ => .error (.unbound name)

theorem ofUnbound_eq_ok_iff (names : List String) : ofUnbound names = .ok () ↔ names = [] := by
  cases names with
  | nil => simp [ofUnbound]
  | cons name more => simp [ofUnbound]

theorem ofUnbound_eq_error_iff (names : List String) (failure : Failure)
    : ofUnbound names = .error failure ↔
      ∃ name more, names = name :: more ∧ failure = .unbound name := by
  cases names with
  | nil => simp [ofUnbound]
  | cons name more => simp [ofUnbound, eq_comm]

theorem ofUnbound_append (names more : List String)
    : ofUnbound (names ++ more) = (do ofUnbound names; ofUnbound more) := by
  cases names with
  | nil => rfl
  | cons name rest => rfl

end Failure

namespace Term

/--
Resolve a term at a place below `path` in a term inside of `scope`.
-/
def resolveBelow (names : List String) (scope : Scope) : List (Option String) → Term → Term
  | path, lam binder body => lam binder (body.resolveBelow names scope (binder :: path))
  | path, var name =>
    if !scope.bindsBelow path name && names.contains name then ref name else var name
  | _, ref name => ref name
  | path, app function argument =>
    app (function.resolveBelow names scope path) (argument.resolveBelow names scope path)

/--
The variables of a term at such a place that nothing binds, from left to right.
-/
def unboundBelow (scope : Scope) : List (Option String) → Term → List String
  | path, lam binder body => body.unboundBelow scope (binder :: path)
  | path, var name => if scope.bindsBelow path name then [] else [name]
  | _, ref _ => []
  | path, app function argument =>
    function.unboundBelow scope path ++ argument.unboundBelow scope path

theorem resolveIn_eq (names : List String) (term : Term) {scope inner : Scope}
    {path : List (Option String)} (h : scope.IsAt path inner)
    : ∃ after, term.resolveIn names inner = some (term.resolveBelow names scope path, after) ∧
        scope.IsAt path after := by
  induction term generalizing path inner with
  | lam binder body ih =>
    rcases ih (h.push binder) with ⟨below, hbody, hbelow⟩
    rcases hbelow.exists_pop? with ⟨after, hpop, hafter⟩
    refine ⟨after, ?_, hafter⟩
    simp [resolveIn, resolveBelow, hbody, hpop]
  | var name =>
    refine ⟨inner, ?_, h⟩
    simp only [resolveIn, resolveBelow, h.binds_eq]
    split <;> rfl
  | ref name => exact ⟨inner, rfl, h⟩
  | app function argument ihf iha =>
    rcases ihf h with ⟨middle, hfunction, hmiddle⟩
    rcases iha hmiddle with ⟨after, hargument, hafter⟩
    refine ⟨after, ?_, hafter⟩
    simp [resolveIn, resolveBelow, hfunction, hargument]

theorem checkIn_of_nil (term : Term) {scope inner : Scope} {path : List (Option String)}
    (h : scope.IsAt path inner) (hbound : term.unboundBelow scope path = [])
    : ∃ after, term.checkIn inner = .ok after ∧ scope.IsAt path after := by
  induction term generalizing path inner with
  | lam binder body ih =>
    rcases ih (h.push binder) hbound with ⟨below, hbody, hbelow⟩
    rcases hbelow.exists_pop? with ⟨after, hpop, hafter⟩
    refine ⟨after, ?_, hafter⟩
    simp only [checkIn, hbody, bind, Except.bind, hpop]
  | var name =>
    refine ⟨inner, ?_, h⟩
    have : scope.bindsBelow path name := by
      simpa [unboundBelow] using hbound
    simp [checkIn, h.binds_eq, this]
  | ref name => exact ⟨inner, rfl, h⟩
  | app function argument ihf iha =>
    simp only [unboundBelow, List.append_eq_nil_iff] at hbound
    rcases ihf h hbound.1 with ⟨middle, hfunction, hmiddle⟩
    rcases iha hmiddle hbound.2 with ⟨after, hargument, hafter⟩
    refine ⟨after, ?_, hafter⟩
    simp only [checkIn, hfunction, bind, Except.bind, hargument]

theorem checkIn_of_cons (term : Term) {scope inner : Scope} {path : List (Option String)}
    (h : scope.IsAt path inner) {name : String} {more : List String}
    (hunbound : term.unboundBelow scope path = name :: more)
    : term.checkIn inner = .error (.unbound name) := by
  induction term generalizing path inner more with
  | lam binder body ih =>
    simp only [checkIn, ih (h.push binder) hunbound, bind, Except.bind]
  | var other =>
    simp only [unboundBelow] at hunbound
    split at hunbound
    · simp at hunbound
    · next hfree =>
      rw [List.cons.injEq] at hunbound
      rw [← hunbound.1]
      simp [checkIn, h.binds_eq, hfree]
  | ref other => simp [unboundBelow] at hunbound
  | app function argument ihf iha =>
    simp only [unboundBelow] at hunbound
    simp only [checkIn]
    cases hfunction : function.unboundBelow scope path with
    | nil =>
      rw [hfunction, List.nil_append] at hunbound
      rcases checkIn_of_nil function h hfunction with ⟨middle, hok, hmiddle⟩
      rw [hok]
      exact iha hmiddle hunbound
    | cons first rest =>
      rw [hfunction, List.cons_append, List.cons.injEq] at hunbound
      rw [hunbound.1] at hfunction
      rw [ihf h hfunction]
      rfl

/-!
Outside of all abstractions what is unbound are the free variables.
-/

theorem unboundBelow_empty (term : Term) (path : List (Option String))
    : term.unboundBelow .empty path = term.freeVars.filter (fun name => some name ∉ path) := by
  induction term generalizing path with
  | lam binder body ih =>
    simp only [unboundBelow, ih, freeVars, List.filter_filter]
    apply List.filter_congr
    intro name _
    simp [Bool.and_comm]
  | var name =>
    by_cases h : some name ∈ path
    · simp [unboundBelow, freeVars, h]
    · simp [unboundBelow, freeVars, h]
  | ref name => rfl
  | app function argument ihf iha => simp [unboundBelow, ihf, iha]

theorem unboundBelow_nil (term : Term) : term.unboundBelow .empty [] = term.freeVars := by
  rw [unboundBelow_empty]
  simp

theorem check_eq (term : Term) : term.check = Failure.ofUnbound term.freeVars := by
  have hfree := unboundBelow_nil term
  unfold check
  cases hcases : term.freeVars with
  | nil =>
    rw [hcases] at hfree
    rcases checkIn_of_nil term (Scope.isAt_nil .empty) hfree with ⟨after, hok, _⟩
    simp [hok, Except.map, Failure.ofUnbound]
  | cons name more =>
    rw [hcases] at hfree
    rw [checkIn_of_cons term (Scope.isAt_nil .empty) hfree]
    simp [Except.map, Failure.ofUnbound]

theorem check_eq_ok_iff (term : Term) : term.check = .ok () ↔ term.freeVars = [] := by
  rw [check_eq, Failure.ofUnbound_eq_ok_iff]

theorem resolve_eq (names : List String) (term : Term)
    : term.resolve names = term.resolveBelow names .empty [] := by
  rcases resolveIn_eq names term (Scope.isAt_nil .empty) with ⟨after, heq, _⟩
  simp [resolve, heq]

theorem freeVars_resolveBelow (names : List String) (term : Term) (path : List (Option String))
    : (term.resolveBelow names .empty path).freeVars =
      term.freeVars.filter (fun name => some name ∈ path ∨ name ∉ names) := by
  induction term generalizing path with
  | lam binder body ih =>
    simp only [resolveBelow, freeVars, ih, List.filter_filter]
    apply List.filter_congr
    intro name _
    by_cases h : some name = binder
    · simp [h]
    · simp [h]
  | var name =>
    simp only [resolveBelow, Scope.bindsBelow_empty]
    split
    · next h =>
      simp only [Bool.and_eq_true, Bool.not_eq_true', decide_eq_false_iff_not,
        List.contains_eq_mem, decide_eq_true_eq] at h
      simp [freeVars, h]
    · next h =>
      simp only [Bool.and_eq_true, Bool.not_eq_true', decide_eq_false_iff_not,
        List.contains_eq_mem, decide_eq_true_eq, not_and] at h
      by_cases hpath : some name ∈ path
      · simp [freeVars, hpath]
      · simp [freeVars, h hpath]
  | ref name => rfl
  | app function argument ihf iha => simp [resolveBelow, ihf, iha]

theorem mem_refs_resolveBelow (names : List String) (term : Term) (path : List (Option String))
    (name : String)
    : name ∈ (term.resolveBelow names .empty path).refs ↔
      name ∈ term.refs ∨ (name ∈ term.freeVars ∧ some name ∉ path ∧ name ∈ names) := by
  induction term generalizing path with
  | lam binder body ih =>
    simp only [resolveBelow, refs_lam, ih, mem_freeVars_lam, List.mem_cons, not_or]
    grind
  | var other =>
    simp only [resolveBelow, Scope.bindsBelow_empty]
    split
    · next h =>
      simp only [Bool.and_eq_true, Bool.not_eq_true', decide_eq_false_iff_not,
        List.contains_eq_mem, decide_eq_true_eq] at h
      simp only [refs_ref, List.mem_singleton, refs_var, List.not_mem_nil, false_or,
        mem_freeVars_var]
      grind
    · next h =>
      simp only [Bool.and_eq_true, Bool.not_eq_true', decide_eq_false_iff_not,
        List.contains_eq_mem, decide_eq_true_eq, not_and] at h
      simp only [refs_var, List.not_mem_nil, false_or, mem_freeVars_var, false_iff]
      grind
  | ref other => simp [resolveBelow]
  | app function argument ihf iha =>
    simp only [resolveBelow, refs_app, List.mem_append, ihf, iha, freeVars_app]
    grind

theorem resolveBelow_eq_self (names : List String) (term : Term) (path : List (Option String))
    (h : ∀ name ∈ term.freeVars, some name ∉ path → name ∉ names)
    : term.resolveBelow names .empty path = term := by
  induction term generalizing path with
  | lam binder body ih =>
    simp only [resolveBelow, lam.injEq, true_and]
    apply ih
    intro name hname hpath
    simp only [List.mem_cons, not_or] at hpath
    exact h name (by simp [hname, hpath.1]) hpath.2
  | var name =>
    simp only [resolveBelow, Scope.bindsBelow_empty]
    have := h name (by simp)
    split
    · next hresolved => simp_all
    · rfl
  | ref name => rfl
  | app function argument ihf iha =>
    simp only [freeVars_app, List.mem_append] at h
    simp only [resolveBelow, app.injEq]
    exact ⟨ihf path (fun name hname => h name (Or.inl hname)),
      iha path (fun name hname => h name (Or.inr hname))⟩

theorem resolveBelow_resolveBelow (names more : List String) (scope : Scope)
    (path : List (Option String)) (term : Term)
    : (term.resolveBelow names scope path).resolveBelow more scope path =
      term.resolveBelow (names ++ more) scope path := by
  induction term generalizing path with
  | lam binder body ih => simp only [resolveBelow, ih]
  | var name =>
    simp only [resolveBelow, List.contains_append]
    cases hbinds : scope.bindsBelow path name with
    | true => simp [resolveBelow, hbinds]
    | false =>
      cases names.contains name with
      | true => simp [resolveBelow]
      | false => simp [resolveBelow, hbinds]
  | ref name => rfl
  | app function argument ihf iha => simp only [resolveBelow, ihf, iha]

theorem resolveBelow_congr {names others : List String} (h : ∀ name, name ∈ names ↔ name ∈ others)
    (scope : Scope) (path : List (Option String)) (term : Term)
    : term.resolveBelow names scope path = term.resolveBelow others scope path := by
  induction term generalizing path with
  | lam binder body ih => simp only [resolveBelow, ih]
  | var name => simp only [resolveBelow, List.contains_eq_mem, h]
  | ref name => rfl
  | app function argument ihf iha => simp only [resolveBelow, ihf, iha]

theorem render_resolveBelow (names : List String) (scope : Scope) (path : List (Option String))
    (term : Term) : (term.resolveBelow names scope path).render = term.render := by
  induction term generalizing path with
  | lam binder body ih => simp only [resolveBelow, render, ih]
  | var name =>
    simp only [resolveBelow]
    split
    · rfl
    · rfl
  | ref name => rfl
  | app function argument ihf iha => simp only [resolveBelow, render, ihf, iha]

theorem freeVars_resolve (names : List String) (term : Term)
    : (term.resolve names).freeVars = term.freeVars.filter (fun name => name ∉ names) := by
  rw [resolve_eq, freeVars_resolveBelow]
  simp

theorem not_mem_of_check_resolve {names : List String} {term : Term} {name : String}
    (h : (term.resolve names).check = .error (.unbound name)) : name ∉ names := by
  rw [check_eq, Failure.ofUnbound_eq_error_iff, freeVars_resolve] at h
  rcases h with ⟨first, rest, hfree, hfirst⟩
  rw [Failure.unbound.injEq] at hfirst
  have hmem : name ∈ term.freeVars.filter (fun other => other ∉ names) := by
    rw [hfree, hfirst]
    exact List.mem_cons_self
  simpa using (List.mem_filter.1 hmem).2

-- Among more names the variables before the first unbound one stay bound.
theorem check_resolve_of_subset {names more : List String} {term : Term} {name : String}
    (h : (term.resolve names).check = .error (.unbound name)) (hsubset : ∀ other ∈ names, other ∈ more)
    (hname : name ∉ more) : (term.resolve more).check = .error (.unbound name) := by
  rw [check_eq, Failure.ofUnbound_eq_error_iff, freeVars_resolve] at h ⊢
  rcases h with ⟨first, rest, hfree, hfirst⟩
  rw [Failure.unbound.injEq] at hfirst
  rw [← hfirst] at hfree
  have hfilter : term.freeVars.filter (fun other => other ∉ more) =
      (term.freeVars.filter (fun other => other ∉ names)).filter (fun other => other ∉ more) := by
    rw [List.filter_filter]
    apply List.filter_congr
    intro other _
    by_cases hother : other ∈ names
    · simp [hother, hsubset other hother]
    · simp [hother]
  refine ⟨name, rest.filter (fun other => other ∉ more), ?_, rfl⟩
  rw [hfilter, hfree, List.filter_cons_of_pos]
  simp [hname]

theorem mem_refs_resolve (names : List String) (term : Term) (name : String)
    : name ∈ (term.resolve names).refs ↔
      name ∈ term.refs ∨ (name ∈ term.freeVars ∧ name ∈ names) := by
  rw [resolve_eq, mem_refs_resolveBelow]
  simp

theorem resolve_eq_self {term : Term} (h : term.freeVars = []) (names : List String)
    : term.resolve names = term := by
  rw [resolve_eq]
  apply resolveBelow_eq_self
  simp [h]

theorem resolve_resolve (names more : List String) (term : Term)
    : (term.resolve names).resolve more = term.resolve (names ++ more) := by
  rw [resolve_eq, resolve_eq, resolve_eq, resolveBelow_resolveBelow]

theorem resolve_congr {names others : List String} (h : ∀ name, name ∈ names ↔ name ∈ others)
    (term : Term) : term.resolve names = term.resolve others := by
  rw [resolve_eq, resolve_eq, resolveBelow_congr h]

theorem resolve_resolve_of_subset {names more : List String} (h : ∀ name ∈ names, name ∈ more)
    (term : Term) : (term.resolve names).resolve more = term.resolve more := by
  rw [resolve_resolve]
  apply resolve_congr
  intro name
  rw [List.mem_append]
  constructor
  · intro hname
    cases hname with
    | inl hnames => exact h name hnames
    | inr hmore => exact hmore
  · exact Or.inr

theorem render_resolve (names : List String) (term : Term)
    : (term.resolve names).render = term.render := by
  rw [resolve_eq, render_resolveBelow]

end Term

end NamedLambda
