import NamedLambda.Proofs.Nameless
import NamedLambda.Proofs.Trajectory

/-!
This module contains the comparison of weak-head reduction with that of nameless terms. From a closed
term only closed arguments are ever substituted, so that nothing is captured and both make the same
steps.
-/

namespace NamedLambda

variable {book : Book}

namespace Term

theorem GoodIn.function {names : List String} {function argument : Term}
    (h : (app function argument).GoodIn names) : function.GoodIn names where
  closed := (List.append_eq_nil_iff.1 h.closed).1
  refs_mem := fun name hname => h.refs_mem name (by simp [hname])

theorem GoodIn.argument {names : List String} {function argument : Term}
    (h : (app function argument).GoodIn names) : argument.GoodIn names where
  closed := (List.append_eq_nil_iff.1 h.closed).2
  refs_mem := fun name hname => h.refs_mem name (by simp [hname])

theorem contract_nameless (binder : Option String) (body : Term) {argument : Term}
    (h : argument.freeVars = [])
    : (body.nameless [binder]).instantiate (argument.nameless []) 0 =
      (body.substitute binder argument).nameless [] := by
  have := instantiate_nameless body h binder []
  simpa using this

-- The head of a closed application is an abstraction or a reference, which the book defines.
theorem step_app_nameless {function argument : Term}
    (h : (app function argument).GoodIn book.names)
    : ∃ next, (app function argument).step book = .ok { term := next, reduced := true } ∧
        ((app function argument).nameless []).headStep book.nameless = some (next.nameless []) := by
  induction function generalizing argument with
  | lam binder body _ =>
    have hcontract := contract_nameless binder body h.argument.closed
    cases binder with
    | none =>
      rw [substitute_none] at hcontract
      exact ⟨body, rfl, congrArg some hcontract⟩
    | some name => exact ⟨body.substitute (some name) argument, rfl, congrArg some hcontract⟩
  | var name =>
    have hclosed := h.function.closed
    simp [freeVars] at hclosed
  | ref name =>
    rcases Book.exists_find? (h.function.refs_mem name (by simp)) with ⟨body, hfind⟩
    refine ⟨app body argument, ?_, ?_⟩
    · simp [step, Book.unfold, hfind, bind, Except.bind, pure, Except.pure]
    · simp [nameless, Nameless.headStep, Book.nameless, hfind]
  | app inner first ih _ =>
    rcases ih h.function with ⟨next, hstep, hhead⟩
    refine ⟨app next argument, ?_, ?_⟩
    · simp [step, hstep, bind, Except.bind, pure, Except.pure]
    · simp only [nameless] at hhead ⊢
      simp [Nameless.headStep, hhead]

theorem headStep_nameless_eq_none {term : Term} (h : Form.weakHead.reached term = true)
    (path : List (Option String)) : (term.nameless path).headStep book.nameless = none := by
  cases term with
  | lam binder body => rfl
  | var name =>
    simp only [nameless]
    split <;> rfl
  | ref name => rfl
  | app function argument => simp [Form.reached] at h

theorem after_nameless (good : book.Good) (count : Nat) {term : Term}
    (h : term.GoodIn book.names)
    : ∃ other?, term.after book .weakHead count = .ok other? ∧
        other?.map (nameless []) = (term.nameless []).after book.nameless count := by
  induction count generalizing term with
  | zero => exact ⟨some term, rfl, rfl⟩
  | succ count ih =>
    cases hreached : Form.weakHead.reached term with
    | true =>
      refine ⟨none, by simp [after, hreached], ?_⟩
      simp [Nameless.after, headStep_nameless_eq_none hreached]
    | false =>
      cases term with
      | app function argument =>
        rcases step_app_nameless h with ⟨next, hstep, hhead⟩
        have hnext := ((contracts_of_step hstep).1 rfl).goodIn good h
        rcases ih hnext with ⟨other?, hafter, heq⟩
        refine ⟨other?, ?_, ?_⟩
        · simpa [after, hreached, hstep] using hafter
        · simpa [Nameless.after, hhead] using heq
      | lam binder body => simp [Form.reached] at hreached
      | var name => simp [Form.reached] at hreached
      | ref name => simp [Form.reached] at hreached

end Term

/--
Weak-head reduction of a good term makes the steps of its nameless form, one by one, and ends with it.
-/
theorem weakHead_eq_nameless {term : Term} (good : book.Good) (h : term.GoodIn book.names)
    : (∀ count, ∃ other?, term.after book .weakHead count = .ok other? ∧
        other?.map (Term.nameless []) = (term.nameless []).after book.nameless count) ∧
      (∀ limit fuel reduction terms,
        reduceStepped book .weakHead .normal limit 0 fuel term = some reduction →
        reduction.result = .ok terms →
        reduction.steps + 1 = terms.length ∧
          ∀ count, terms[count]?.map (Term.nameless []) =
            (term.nameless []).after book.nameless count) ∧
      (∀ limit fuel reduction final,
        reduce book .weakHead .normal limit 0 fuel term = some reduction →
        reduction.result = .ok final →
        (term.nameless []).after book.nameless reduction.steps = some (final.term.nameless []) ∧
          (term.nameless []).after book.nameless (reduction.steps + 1) = none) ∧
      (∀ count last,
        (term.nameless []).after book.nameless count = some last →
        (term.nameless []).after book.nameless (count + 1) = none →
        ∃ terms final,
          reduceStepped book .weakHead .normal none 0 (count + 1) term =
            some { result := .ok terms, steps := count } ∧
          reduce book .weakHead .normal none 0 (count + 1) term =
            some { result := .ok final, steps := count } ∧
          final.term.nameless [] = last) := by
  have hafter := fun count => Term.after_nameless good count h
  -- Equal trajectories are given where the reduction gives its own one.
  have heq : ∀ {count other?}, term.after book .weakHead count = .ok other? →
      (term.nameless []).after book.nameless count = other?.map (Term.nameless []) := by
    intro count other? hother
    rcases hafter count with ⟨same?, hsame, hnameless⟩
    rw [hother, Except.ok.injEq] at hsame
    rw [← hnameless, hsame]
  refine ⟨hafter, ?_, ?_, ?_⟩
  · intro limit fuel reduction terms hreduce hok
    rcases reduceStepped_ok hreduce hok with ⟨hsteps, htrace⟩
    refine ⟨by omega, ?_⟩
    intro count
    exact (heq (htrace count)).symm
  · intro limit fuel reduction final hreduce hok
    rcases reduce_ok hreduce hok with ⟨count, hsteps, hlast, hnone⟩
    rw [Nat.zero_add] at hsteps
    rw [hsteps]
    exact ⟨heq hlast, heq hnone⟩
  · intro count last hlast hnone
    rcases hafter count with ⟨other?, hother, hmap⟩
    rcases hafter (count + 1) with ⟨end?, hend, hmapEnd⟩
    rw [hlast] at hmap
    rw [hnone, Option.map_eq_none_iff] at hmapEnd
    rcases Option.map_eq_some_iff.1 hmap with ⟨other, hsome, hlastEq⟩
    rw [hsome] at hother
    rw [hmapEnd] at hend
    rcases exists_reduceStepped hother hend .normal 0 with ⟨terms, hterms⟩
    rcases exists_reduce hother hend .normal 0 with ⟨final, hfinal, hterm⟩
    rw [Nat.zero_add] at hterms hfinal
    refine ⟨terms, final, hterms, hfinal, ?_⟩
    rw [hterm, hlastEq]

theorem weakHead_eq_nameless_shadowed
    : let book := Book.ofList [{ name := "K", body := .lam (some "x") (.lam none (.var "x")) }]
      let value := Term.lam (some "x") (.lam (some "x") (.var "x"))
      let term := Term.app (.app (.ref "K") value) (.ref "K")
      book.Good ∧ term.GoodIn book.names ∧
        ∃ terms final,
          reduceStepped book .weakHead .normal none 0 4 term =
            some { result := .ok terms, steps := 3 } ∧
          reduce book .weakHead .normal none 0 4 term = some { result := .ok final, steps := 3 } ∧
          final.term.nameless [] = .lam (.lam (.bound 0)) := by
  intro book value term
  have good : book.Good := by decide
  have h : term.GoodIn book.names := by decide
  exact ⟨good, h, (weakHead_eq_nameless good h).2.2.2 3 _ (by decide) (by decide)⟩

end NamedLambda
