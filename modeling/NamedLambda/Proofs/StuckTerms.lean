import NamedLambda.Proofs.FirstRedex
import NamedLambda.Proofs.Trajectory

/-!
This module contains stuck terms, which are told by their shape alone: a step reduces nothing in a term
exactly if it is stuck, whatever the book. What a reduction gives has the form that was asked for or is
stuck, and reducing it once more changes nothing.
-/

namespace NamedLambda

namespace Term

mutual

inductive Stuck : Term → Prop where
  | var (name : String) : Stuck (var name)
  | lam (binder : Option String) {body : Term} (h : Stuck body) : Stuck (lam binder body)
  | ofNeutral {term : Term} (h : Neutral term) : Stuck term

/--
Applications of a variable to any first argument and to stuck ones after it.
-/
inductive Neutral : Term → Prop where
  | first (name : String) (argument : Term) : Neutral (app (var name) argument)
  | more {function argument : Term} (hf : Neutral function) (ha : Stuck argument)
    : Neutral (app function argument)

end

theorem NoRedex.of_opens {term child : Term} {direction : Direction} (h : term.NoRedex)
    (hopens : Opens term direction child) : child.NoRedex := by
  intro position subterm hreaches
  exact h (direction :: position) subterm (hreaches.of_opens hopens)

theorem NoRedex.not_isRedex {term : Term} (h : term.NoRedex) : ¬term.IsRedex :=
  h [] term .root

theorem Stuck.noRedex {term : Term} (h : term.Stuck) : term.NoRedex := by
  induction term with
  | lam binder body ih =>
    apply noRedex_of_opens
    · intro h
      cases h
    · intro direction child hopens
      cases hopens
      apply ih
      cases h with
      | lam _ hbody => exact hbody
      | ofNeutral hneutral => cases hneutral
  | var name => exact noRedex_var name
  | ref name =>
    cases h with
    | ofNeutral hneutral => cases hneutral
  | app function argument ihf iha =>
    cases h with
    | ofNeutral hneutral =>
      cases hneutral with
      | first name argument => exact noRedex_app_var name argument
      | more hfunction hargument =>
        have hnone := ihf (.ofNeutral hfunction)
        cases hfunction with
        | first name other => exact noRedex_app hnone (iha hargument)
        | more hinner hother => exact noRedex_app hnone (iha hargument)

theorem NoRedex.stuck {term : Term} (h : term.NoRedex) : term.Stuck := by
  induction term with
  | lam binder body ih => exact .lam binder (ih (h.of_opens (.body binder body)))
  | var name => exact .var name
  | ref name => exact absurd (.reference name) h.not_isRedex
  | app function argument ihf iha =>
    cases function with
    | lam binder body => exact absurd (.application binder body argument) h.not_isRedex
    | var name => exact .ofNeutral (.first name argument)
    | ref name =>
      have hfunction := h.of_opens (.functionRef name argument)
      exact absurd (.reference name) hfunction.not_isRedex
    | app inner first =>
      have hfunction := ihf (h.of_opens (.functionApp inner first argument))
      have hargument := iha (h.of_opens (.argument inner first argument))
      cases hfunction with
      | ofNeutral hneutral => exact .ofNeutral (.more hneutral hargument)

variable {book : Book} {form : Form} {term : Term}

theorem Stuck.step_eq (h : term.Stuck) (book : Book)
    : term.step book = .ok { term, reduced := false } := by
  cases tried book term with
  | contracted position redex contractum hfirst _ _ =>
    exact absurd hfirst.isRedex (h.noRedex position redex hfirst.reaches)
  | stuck _ hstep => exact hstep
  | missing position name hfirst _ _ =>
    exact absurd hfirst.isRedex (h.noRedex position (ref name) hfirst.reaches)

theorem step_eq_stuck_iff (book : Book) (term next : Term)
    : term.step book = .ok { term := next, reduced := false } ↔ term.Stuck ∧ next = term := by
  constructor
  · intro h
    cases tried book term with
    | contracted position redex contractum _ _ hstep => simp [hstep] at h
    | stuck hnone hstep =>
      simp only [hstep, Except.ok.injEq, Progress.mk.injEq, and_true] at h
      exact ⟨hnone.stuck, h.symm⟩
    | missing position name _ _ hstep => simp [hstep] at h
  · intro h
    rw [h.2]
    exact h.1.step_eq book

theorem after_one_eq_none_iff
    : term.after book form 1 = .ok none ↔ form.reached term = true ∨ term.Stuck := by
  constructor
  · intro h
    cases turn book form none 0 term with
    | reached hreached => exact Or.inl hreached
    | failed fault hreached hstep => simp [after, hreached, hstep] at h
    | stuck _ hstep => exact Or.inr ((step_eq_stuck_iff book term term).1 hstep).1
    | exceeded next failure _ _ hlimit => simp at hlimit
    | reduced next hreached hstep _ => simp [after, hreached, hstep] at h
  · intro h
    cases h with
    | inl hreached => simp [after, hreached]
    | inr hstuck => simp [after, hstuck.step_eq book]

end Term

section

variable {book : Book} {form : Form} {order : Order} {limit : Option Limit} {steps fuel : Nat}
  {term : Term}

theorem reached_or_stuck_of_reduce {reduction : Reduction Final} {final : Final}
    (h : reduce book form order limit steps fuel term = some reduction)
    (hok : reduction.result = .ok final) : form.reached final.term = true ∨ final.term.Stuck := by
  rcases reduce_ok h hok with ⟨count, _, hlast, hnone⟩
  rw [Term.after_add hlast 1] at hnone
  exact Term.after_one_eq_none_iff.1 hnone

theorem reduce_eq_self (h : form.reached term = true ∨ term.Stuck)
    : reduce book form order limit steps (fuel + 1) term =
      some { result := .ok { term, stuck := !form.reached term }, steps } := by
  unfold reduce
  cases hreached : form.reached term with
  | true => rfl
  | false =>
    have hstuck : term.Stuck := by
      simpa [hreached] using h
    simp [Order.step_eq, hstuck.step_eq book]

end

/--
A step reduces nothing exactly in a stuck term, and leaves it as it is. A reduction to a normal form gives
a stuck term, one to a weak head normal form may also give an abstraction or a reference. Reducing what it
gave once more to the same form gives the same again and makes no step, even under a limit that allows
none.
-/
theorem results_stuck_and_stable (book : Book) (term : Term)
    : (∀ next, term.step book = .ok { term := next, reduced := false } ↔ term.Stuck ∧ next = term) ∧
      (∀ order limit steps fuel reduction final,
        reduce book .normal order limit steps fuel term = some reduction →
        reduction.result = .ok final → final.term.Stuck) ∧
      (∀ order limit steps fuel reduction final,
        reduce book .weakHead order limit steps fuel term = some reduction →
        reduction.result = .ok final →
        (∃ binder body, final.term = .lam binder body) ∨ (∃ name, final.term = .var name) ∨
          (∃ name, final.term = .ref name) ∨
          ((∃ function argument, final.term = .app function argument) ∧ final.term.Stuck)) ∧
      (∀ form order limit steps fuel reduction final,
        reduce book form order limit steps fuel term = some reduction →
        reduction.result = .ok final →
        ∀ other order' limit' steps' fuel',
          reduce other form order' limit' steps' (fuel' + 1) final.term =
            some { result := .ok final, steps := steps' }) := by
  refine ⟨Term.step_eq_stuck_iff book term, ?_, ?_, ?_⟩
  · intro order limit steps fuel reduction final hreduce hok
    cases reached_or_stuck_of_reduce hreduce hok with
    | inl hreached => simp [Form.reached] at hreached
    | inr hstuck => exact hstuck
  · intro order limit steps fuel reduction final hreduce hok
    have hend := reached_or_stuck_of_reduce hreduce hok
    cases hterm : final.term with
    | lam binder body => exact Or.inl ⟨binder, body, rfl⟩
    | var name => exact Or.inr (Or.inl ⟨name, rfl⟩)
    | ref name => exact Or.inr (Or.inr (Or.inl ⟨name, rfl⟩))
    | app function argument =>
      rw [hterm] at hend
      cases hend with
      | inl hreached => simp [Form.reached] at hreached
      | inr hstuck => exact Or.inr (Or.inr (Or.inr ⟨⟨function, argument, rfl⟩, hstuck⟩))
  · intro form order limit steps fuel reduction final hreduce hok other order' limit' steps' fuel'
    rw [reduce_eq_self (reached_or_stuck_of_reduce hreduce hok), ← stuck_eq_of_reduce hreduce hok]

theorem results_stuck_and_stable_variableHead
    : let identity := Term.lam (some "x") (.var "x")
      let book := Book.ofList [{ name := "id", body := identity }]
      let spine := Term.app (.var "y") (.app (.ref "id") (.ref "id"))
      let final : Final := { term := .app spine identity, stuck := true }
      reduce book .normal .normal none 0 2 (.app spine (.ref "id")) =
          some { result := .ok final, steps := 1 } ∧
        final.term.Stuck ∧
        reduce book .normal .normal (some (.steps (-1))) 0 1 final.term =
          some { result := .ok final, steps := 0 } := by
  intro identity book spine final
  have hreduce : reduce book .normal .normal none 0 2 (.app spine (.ref "id")) =
      some { result := .ok final, steps := 1 } := by rfl
  have hresults := results_stuck_and_stable book (.app spine (.ref "id"))
  refine ⟨hreduce, hresults.2.1 .normal none 0 2 _ final hreduce rfl, ?_⟩
  exact hresults.2.2.2 .normal .normal none 0 2 _ final hreduce rfl book .normal (some (.steps (-1))) 0 0

end NamedLambda
