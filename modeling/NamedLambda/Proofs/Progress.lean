import NamedLambda.Proofs.Calls
import NamedLambda.Proofs.Traces
import NamedLambda.Proofs.WeakHead

/-!
This module contains the progress of weak-head reduction. A closed application can always be reduced, so
that a reduction of a closed term is never stuck and never warns, and what it gives is an abstraction or
a reference.
-/

namespace NamedLambda

namespace Term

variable {book : Book} {term : Term}

theorem reached_of_after_one (h : term.GoodIn book.names)
    (hend : term.after book .weakHead 1 = .ok none) : Form.weakHead.reached term = true := by
  cases term with
  | app function argument =>
    rcases step_app_nameless h with ⟨next, hstep, _⟩
    simp [after, Form.reached, hstep] at hend
  | lam binder body => rfl
  | var name => rfl
  | ref name => rfl

theorem lam_or_ref_of_reached {names : List String} (h : term.GoodIn names)
    (hreached : Form.weakHead.reached term = true)
    : (∃ binder body, term = lam binder body) ∨ ∃ name ∈ names, term = ref name := by
  cases term with
  | lam binder body => exact Or.inl ⟨binder, body, rfl⟩
  | ref name => exact Or.inr ⟨name, h.refs_mem name (by simp), rfl⟩
  | var name =>
    have hclosed := h.closed
    simp [freeVars] at hclosed
  | app function argument => simp [Form.reached] at hreached

-- The last term is as good as the first one, so that it would be reduced if it were an application.
theorem reached_of_reduce {order : Order} {limit : Option Limit} {steps fuel : Nat}
    {reduction : Reduction Final} {final : Final} (good : book.Good) (h : term.GoodIn book.names)
    (hreduce : reduce book .weakHead order limit steps fuel term = some reduction)
    (hok : reduction.result = .ok final)
    : final.term.GoodIn book.names ∧ Form.weakHead.reached final.term = true := by
  rcases reduce_ok hreduce hok with ⟨count, _, hlast, hnone⟩
  have hfinal := after_goodIn good h hlast
  rw [after_add hlast 1] at hnone
  exact ⟨hfinal, reached_of_after_one hfinal hnone⟩

end Term

namespace Session

variable {session : Session} {fuel : Nat} {mode : Mode} {term : Term}

theorem warnings_of_run {terms : List Term} (good : session.book.Good)
    (hterm : term.GoodIn session.book.names) (h : session.reduced fuel term mode = some (.ok terms))
    : session.warnings mode (.ok terms) =
      if mode = .run ∧ session.form = .normal then session.reporter.warning "no redex left" else "" := by
  cases mode with
  | run =>
    rw [reduced_eq] at h
    rcases Option.map_eq_some_iff.1 h with ⟨reduction, hreduction, hresult⟩
    cases hok : reduction.result with
    | error failure => simp [hok, Except.map] at hresult
    | ok final =>
      simp only [hok, Except.map, Except.ok.injEq] at hresult
      rw [← hresult]
      cases hform : session.form with
      | normal => simp [warnings, hform, Form.reached]
      | weakHead =>
        rw [hform] at hreduction
        have hreached := (Term.reached_of_reduce good hterm hreduction hok).2
        simp [warnings, hform, hreached]
  | stepped => simp [warnings]
  | unknown name => simp [warnings]

theorem eq_of_reduce_weakHead {after : Session} {result : Except Failure (List Term)}
    (good : session.book.Good) (hterm : term.GoodIn session.book.names)
    (hform : session.form = .weakHead) (h : session.reduce fuel term mode = some (after, result))
    : after = session := by
  have hwarnings : session.warnings mode result = "" := by
    cases result with
    | error failure => cases mode <;> rfl
    | ok terms =>
      have hreduced : session.reduced fuel term mode = some (.ok terms) := by
        rw [reduced, h]
        rfl
      rw [warnings_of_run good hterm hreduced]
      simp [hform]
  rw [eq_of_reduce h, hwarnings, Reporter.write_empty]

end Session

/--
An application of a good term is reduced by a step. Weak-head reduction of a good term is hence never
stuck, ends in an abstraction or in a reference to a definition if it ends with a result, and leaves the
session that it is made in without a warning.
-/
theorem weakHead_never_stuck {book : Book} {term : Term} (good : book.Good)
    (h : term.GoodIn book.names)
    : (∀ function argument, term = .app function argument →
        ∃ next, term.step book = .ok { term := next, reduced := true }) ∧
      (∀ order limit steps fuel reduction final,
        reduce book .weakHead order limit steps fuel term = some reduction →
        reduction.result = .ok final →
        final.stuck = false ∧
          ((∃ binder body, final.term = .lam binder body) ∨
            ∃ name ∈ book.names, final.term = .ref name)) ∧
      (∀ (session after : Session) fuel mode result, session.book = book → session.form = .weakHead →
        session.reduce fuel term mode = some (after, result) → after = session) := by
  refine ⟨?_, ?_, ?_⟩
  · intro function argument heq
    subst heq
    rcases Term.step_app_nameless h with ⟨next, hstep, _⟩
    exact ⟨next, hstep⟩
  · intro order limit steps fuel reduction final hreduce hok
    rcases Term.reached_of_reduce good h hreduce hok with ⟨hfinal, hreached⟩
    constructor
    · rw [stuck_eq_of_reduce hreduce hok, hreached]
      rfl
    · exact Term.lam_or_ref_of_reached hfinal hreached
  · intro session after fuel mode result hbook hform hreduce
    subst hbook
    exact Session.eq_of_reduce_weakHead good h hform hreduce

theorem weakHead_never_stuck_mutual
    : let book := Book.ofList
        [{ name := "even", body := .lam (some "n") (.app (.var "n") (.ref "odd")) },
          { name := "odd", body := .lam none (.ref "even") }]
      let term := Term.app (.app (.ref "even") (.lam none (.lam none (.ref "odd")))) (.ref "even")
      book.Good ∧ term.GoodIn book.names ∧
        (∃ next, term.step book = .ok { term := next, reduced := true }) ∧
        ∃ final steps,
          reduce book .weakHead .normal (some (.steps 5)) 0 6 term =
            some { result := .ok final, steps } ∧
          final.stuck = false ∧
          ((∃ binder body, final.term = .lam binder body) ∨
            ∃ name ∈ book.names, final.term = .ref name) := by
  intro book term
  have good : book.Good := by decide
  have h : term.GoodIn book.names := by decide
  have hprogress := weakHead_never_stuck good h
  refine ⟨good, h, hprogress.1 _ _ rfl, { term := .ref "odd", stuck := false }, 4, rfl, ?_⟩
  exact hprogress.2.1 .normal (some (.steps 5)) 0 6 _ _ rfl rfl

end NamedLambda
