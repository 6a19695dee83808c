import NamedLambda.Proofs.Calls
import NamedLambda.Proofs.Reports
import NamedLambda.Proofs.Traces

/-!
This module contains the mistakes of a user: texts that cannot be read, variables that are unbound, and
limits that do not suffice. On a good book nothing else makes a call fail, and a mistake is always
reported. Under a limit every call ends.
-/

namespace NamedLambda

open Source (parseStatement)

theorem Failure.unbound_of_ofUnbound {names : List String} {failure : Failure}
    (h : ofUnbound names = .error failure) : ∃ name, failure = .unbound name := by
  rcases (ofUnbound_eq_error_iff names failure).1 h with ⟨name, _, _, hname⟩
  exact ⟨name, hname⟩

theorem Term.check_error {term : Term} {failure : Failure} (h : term.check = .error failure)
    : ∃ name, failure = .unbound name := by
  rw [check_eq] at h
  exact Failure.unbound_of_ofUnbound h

theorem Book.check_error {book : Book} {failure : Failure} (h : book.check = .error failure)
    : ∃ name, failure = .unbound name := by
  rw [check_eq] at h
  exact Failure.unbound_of_ofUnbound h

theorem Book.accept_error {book : Book} {definition : Definition} {failure : Failure}
    (h : book.accept definition = .error failure) : ∃ name, failure = .unbound name := by
  unfold accept at h
  cases hcheck : (book.define definition).resolve.check with
  | ok value => simp [hcheck, Except.map] at h
  | error cause =>
    simp only [hcheck, Except.map, Except.error.injEq] at h
    rw [h] at hcheck
    exact check_error hcheck

section

variable {book : Book} {form : Form} {order : Order} {limit : Option Limit} {steps fuel : Nat}
  {term : Term}

-- The fuel goes down as the steps go up, which stay within the allowance.
theorem exists_reduceStepped_of_limit {bound : Limit} (hlimit : limit = some bound)
    (hsteps : steps ≤ bound.allowance) (hfuel : bound.allowance < steps + fuel)
    : ∃ reduction, reduceStepped book form order limit steps fuel term = some reduction := by
  induction fuel generalizing steps term with
  | zero => omega
  | succ fuel ih =>
    cases turn book form limit steps term with
    | reached hreached => exact ⟨_, by simp only [reduceStepped, hreached, if_true]; rfl⟩
    | failed fault hreached hstep =>
      rw [reduceStepped_succ hreached, hstep]
      exact ⟨_, rfl⟩
    | stuck hreached hstep =>
      rw [reduceStepped_succ hreached, hstep]
      exact ⟨_, rfl⟩
    | exceeded next failure hreached hstep hexceeded =>
      simp only [reduceStepped_succ hreached, hstep, if_true, hexceeded]
      exact ⟨_, rfl⟩
    | reduced next hreached hstep hwithin =>
      simp only [reduceStepped_succ hreached, hstep, if_true, hwithin]
      rw [hlimit, Option.bind_some, bound.exceeded?_eq_none_iff _ (by omega)] at hwithin
      rcases ih hwithin (by omega) with ⟨rest, hrest⟩
      rw [hrest]
      exact ⟨_, rfl⟩

theorem steps_le_of_limit {bound : Limit} {reduction : Reduction (List Term)} {terms : List Term}
    (hlimit : limit = some bound) (hsteps : steps ≤ bound.allowance)
    (h : reduceStepped book form order limit steps fuel term = some reduction)
    (hok : reduction.result = .ok terms) : reduction.steps ≤ bound.allowance := by
  induction fuel generalizing steps term reduction terms with
  | zero => simp [reduceStepped] at h
  | succ fuel ih =>
    cases turn book form limit steps term with
    | reached hreached =>
      simp only [reduceStepped, hreached, if_true, Option.some.injEq] at h
      rw [← h]
      exact hsteps
    | failed fault hreached hstep =>
      simp only [reduceStepped_succ hreached, hstep, Option.some.injEq] at h
      simp [← h] at hok
    | stuck hreached hstep =>
      simp only [reduceStepped_succ hreached, hstep, Bool.false_eq_true, if_false,
        Option.some.injEq] at h
      rw [← h]
      exact hsteps
    | exceeded next failure hreached hstep hexceeded =>
      simp only [reduceStepped_succ hreached, hstep, if_true, hexceeded, Option.some.injEq] at h
      simp [← h] at hok
    | reduced next hreached hstep hwithin =>
      simp only [reduceStepped_succ hreached, hstep, if_true, hwithin, Option.map_eq_some_iff] at h
      rcases h with ⟨rest, hrest, heq⟩
      rw [hlimit, Option.bind_some, bound.exceeded?_eq_none_iff _ (by omega)] at hwithin
      cases hresult : rest.result with
      | error failure => simp [← heq, hresult, Except.map] at hok
      | ok others =>
        have hrestSteps := ih hwithin hrest hresult
        rw [← heq]
        exact hrestSteps

end

namespace Session

variable {session after : Session} {fuel : Nat}

theorem reduced_of_run {main : Term} {mode : Mode} {result : Except Failure (List Term)}
    (hfind : session.book.find? "main" = some main)
    (h : session.run fuel mode = some (after, result))
    : session.reduced fuel main mode = some result ∧
      after.reporter = session.reporter.write (session.warnings mode result) := by
  simp only [run, hfind, Option.bind_eq_bind, Option.bind_eq_some_iff] at h
  rcases h with ⟨reduced, hreduce, hend⟩
  rcases reduced with ⟨last, given⟩
  have hlast := eq_of_reduce hreduce
  cases given with
  | error failure =>
    simp only [pure, Option.some.injEq, Prod.mk.injEq] at hend
    rw [← hend.1, ← hend.2, hlast]
    exact ⟨by rw [Session.reduced, hreduce]; rfl, rfl⟩
  | ok terms =>
    simp only [pure, Option.some.injEq, Prod.mk.injEq] at hend
    rw [← hend.1, ← hend.2, hlast]
    exact ⟨by rw [Session.reduced, hreduce]; rfl, rfl⟩

theorem exists_reduced {bound : Limit} (hlimit : session.limit = some bound) (fuel : Nat) (term : Term)
    (mode : Mode) : ∃ result, session.reduced fuel term mode = some result := by
  have hends : ∃ reduction, reduceStepped session.book session.form session.order session.limit 0
      (fuelFor session.limit fuel) term = some reduction := by
    apply exists_reduceStepped_of_limit hlimit
    · omega
    · simp only [hlimit, fuelFor]
      omega
  rcases hends with ⟨reduction, hreduction⟩
  rw [reduced_eq]
  cases mode with
  | run =>
    rw [reduce_eq, hreduction]
    exact ⟨_, rfl⟩
  | stepped =>
    rw [hreduction]
    exact ⟨_, rfl⟩
  | unknown name => exact ⟨_, rfl⟩

theorem exists_answer {bound : Limit} (hlimit : session.limit = some bound) (fuel : Nat) (call : Call)
    : ∃ answer, session.answer fuel call = some answer := by
  unfold answer
  split
  · exact ⟨_, rfl⟩
  · exact ⟨_, rfl⟩
  · next term mode _ =>
    rcases exists_reduced hlimit fuel term mode with ⟨result, hresult⟩
    rw [hresult]
    exact ⟨_, rfl⟩

theorem reduced_stepLimit {limit : Option Int} {term : Term} {mode : Mode} {failure : Failure}
    (good : session.book.Good) (hterm : term.GoodIn session.book.names)
    (hlimit : session.limit = limit.map .steps) (hmode : mode = .run ∨ mode = .stepped)
    (h : session.reduced fuel term mode = some (.error failure))
    : ∃ count, limit = some count ∧ failure = .stepLimit count := by
  rcases reduced_error h hmode with ⟨count, fault, hfault, _⟩ | ⟨bound, made, hbound, hexceeded⟩
  · have hafter : ∃ other?, term.after session.book session.form count = .ok other? := by
      apply Term.exists_after good count hterm
    simp [hfault] at hafter
  · rw [hlimit, Option.map_eq_some_iff] at hbound
    rcases hbound with ⟨count, hcount, hbound⟩
    rcases Limit.failure_of_exceeded? hexceeded with ⟨count', hbound', hfailure⟩ | ⟨hblank, _⟩
    · rw [← hbound, Limit.steps.injEq] at hbound'
      rw [hfailure, ← hbound']
      exact ⟨count, hcount, rfl⟩
    · simp [← hbound] at hblank

theorem answer_reported {limit : Option Int} {line : String} {number : Option Int} {mode : Mode}
    {failure : Failure} (good : session.book.Good) (hlimit : session.limit = limit.map .steps)
    (hmode : mode = .run ∨ mode = .stepped)
    (h : session.answer fuel (.evaluate line number mode) = some (.error failure))
    : ∃ diagnostic, failure.Reported diagnostic := by
  have hunbound : ∀ name, failure = .unbound name → ∃ diagnostic, failure.Reported diagnostic := by
    intro name hname
    apply Failure.exists_reported
    · simp [hname]
    · simp [hname]
  unfold answer at h
  split at h
  · next cause hrequest =>
    simp only [Option.some.injEq, Except.error.injEq] at h
    rw [h] at hrequest
    simp only [Call.request] at hrequest
    split at hrequest
    · next error hparse =>
      simp only [Except.error.injEq] at hrequest
      rw [← hrequest]
      rcases Source.parseStatement_located hparse with ⟨issue, before, marked, rest, hlocated⟩
      exact hlocated.exists_reported
    · simp at hrequest
    · next source _ =>
      cases hcheck : (source.resolve session.book.names).check with
      | ok value => simp [hcheck, Except.map] at hrequest
      | error cause =>
        simp only [hcheck, Except.map, Except.error.injEq] at hrequest
        rw [hrequest] at hcheck
        rcases Term.check_error hcheck with ⟨name, hname⟩
        exact hunbound name hname
  · next definition _ =>
    cases haccept : session.book.accept definition with
    | ok book => simp [haccept, Except.map] at h
    | error cause =>
      simp only [haccept, Except.map, Option.some.injEq, Except.error.injEq] at h
      rw [h] at haccept
      rcases Book.accept_error haccept with ⟨name, hname⟩
      exact hunbound name hname
  · next term given hrequest =>
    rcases Option.map_eq_some_iff.1 h with ⟨result, hresult, heq⟩
    cases result with
    | ok terms => simp [Except.map] at heq
    | error cause =>
      simp only [Except.map, Except.error.injEq] at heq
      rw [heq] at hresult
      have hterm := Call.goodIn_of_request_reduce good hrequest
      have hgiven : given = mode := by
        rcases Call.run_or_evaluate_of_request_reduce hrequest with ⟨hcall, _⟩ | ⟨_, _, _, hcall, _⟩
        · simp at hcall
        · simp only [Call.evaluate.injEq] at hcall
          exact hcall.2.2.symm
      rw [hgiven] at hresult
      rcases reduced_stepLimit good hterm hlimit hmode hresult with ⟨count, _, hfailure⟩
      apply Failure.exists_reported
      · simp [hfailure]
      · simp [hfailure]

end Session

end NamedLambda
