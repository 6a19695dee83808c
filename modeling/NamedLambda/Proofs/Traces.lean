import NamedLambda.Proofs.Calls
import NamedLambda.Proofs.Reports

/-!
This module contains the traces of reductions: the terms on the way, each one made from the one before it
by a step within the limit. A reduction that keeps every term gives its trace, a reduction to the result
gives the end of the same trace, and the trace to a weak head normal form is the beginning of the one to
a normal form.
-/

namespace NamedLambda

/--
`terms` are the terms on the way of a reduction of `term` that ends, where `steps` steps were made before
it. Only the last term can have the form, and if it does not there is no step that reduces it.
-/
structure IsTrace (book : Book) (form : Form) (order : Order) (limit : Option Limit) (steps : Nat)
    (term : Term) (terms : List Term) : Prop where
  head?_eq : terms.head? = some term
  step : ∀ index before after, terms[index]? = some before → terms[index + 1]? = some after →
    form.reached before = false ∧
      order.step book limit (steps + index) before =
        { result := .ok { term := after, reduced := true }, steps := steps + index + 1 }
  last : ∀ index final, terms[index]? = some final → terms[index + 1]? = none →
    form.reached final = true ∨
      order.step book limit (steps + index) final =
        { result := .ok { term := final, reduced := false }, steps := steps + index }

namespace IsTrace

variable {book : Book} {form : Form} {order : Order} {limit : Option Limit} {steps : Nat}
  {term next : Term} {terms : List Term}

theorem singleton
    (h : form.reached term = true ∨
      order.step book limit steps term = { result := .ok { term, reduced := false }, steps })
    : IsTrace book form order limit steps term [term] where
  head?_eq := rfl
  step := by
    intro index before after _ hafter
    simp at hafter
  last := by
    intro index final hfinal _
    cases index with
    | zero =>
      rw [List.getElem?_cons_zero, Option.some.injEq] at hfinal
      rw [← hfinal]
      exact h
    | succ index => simp at hfinal

theorem cons (hreached : form.reached term = false)
    (hstep : order.step book limit steps term =
      { result := .ok { term := next, reduced := true }, steps := steps + 1 })
    (h : IsTrace book form order limit (steps + 1) next terms)
    : IsTrace book form order limit steps term (term :: terms) where
  head?_eq := rfl
  step := by
    intro index before after hbefore hafter
    cases index with
    | zero =>
      rw [List.getElem?_cons_zero, Option.some.injEq] at hbefore
      rw [List.getElem?_cons_succ, ← List.head?_eq_getElem?, h.head?_eq, Option.some.injEq] at hafter
      rw [← hbefore, ← hafter]
      exact ⟨hreached, hstep⟩
    | succ index =>
      rw [List.getElem?_cons_succ] at hbefore hafter
      have := h.step index before after hbefore hafter
      rw [Nat.add_right_comm steps 1 index] at this
      exact this
  last := by
    intro index final hfinal hnone
    cases index with
    | zero =>
      rw [List.getElem?_cons_succ, ← List.head?_eq_getElem?, h.head?_eq] at hnone
      simp at hnone
    | succ index =>
      rw [List.getElem?_cons_succ] at hfinal hnone
      have := h.last index final hfinal hnone
      rw [Nat.add_right_comm steps 1 index] at this
      exact this

theorem uncons (h : IsTrace book form order limit steps term (term :: next :: terms))
    : form.reached term = false ∧
      order.step book limit steps term =
        { result := .ok { term := next, reduced := true }, steps := steps + 1 } ∧
      IsTrace book form order limit (steps + 1) next (next :: terms) := by
  have hfirst := h.step 0 term next rfl rfl
  refine ⟨hfirst.1, hfirst.2, rfl, ?_, ?_⟩
  · intro index before after hbefore hafter
    have := h.step (index + 1) before after hbefore hafter
    rw [← Nat.add_assoc, Nat.add_right_comm steps index 1] at this
    exact this
  · intro index final hfinal hnone
    have := h.last (index + 1) final hfinal hnone
    rw [← Nat.add_assoc, Nat.add_right_comm steps index 1] at this
    exact this

theorem exists_eq_cons (h : IsTrace book form order limit steps term terms)
    : ∃ rest, terms = term :: rest := by
  have := h.head?_eq
  cases terms with
  | nil => simp at this
  | cons first rest =>
    rw [List.head?_cons, Option.some.injEq] at this
    exact ⟨rest, by rw [this]⟩

end IsTrace

section

variable {book : Book} {form : Form} {order : Order} {limit : Option Limit} {steps fuel : Nat}
  {term : Term}

theorem isTrace_of_reduceStepped {reduction : Reduction (List Term)} {terms : List Term}
    (h : reduceStepped book form order limit steps fuel term = some reduction)
    (hok : reduction.result = .ok terms) : IsTrace book form order limit steps term terms := by
  induction fuel generalizing steps term reduction terms with
  | zero => simp [reduceStepped] at h
  | succ fuel ih =>
    cases turn book form limit steps term with
    | reached hreached =>
      simp only [reduceStepped, hreached, if_true, Option.some.injEq] at h
      simp only [← h, Except.ok.injEq] at hok
      rw [← hok]
      exact .singleton (Or.inl hreached)
    | failed fault hreached hstep =>
      simp only [reduceStepped_succ hreached, hstep, Option.some.injEq] at h
      simp [← h] at hok
    | stuck hreached hstep =>
      simp only [reduceStepped_succ hreached, hstep, Bool.false_eq_true, if_false,
        Option.some.injEq] at h
      simp only [← h, Except.ok.injEq] at hok
      rw [← hok]
      exact .singleton (Or.inr (by simp [Order.step_eq, hstep]))
    | exceeded next failure hreached hstep hlimit =>
      simp only [reduceStepped_succ hreached, hstep, if_true, hlimit, Option.some.injEq] at h
      simp [← h] at hok
    | reduced next hreached hstep hlimit =>
      simp only [reduceStepped_succ hreached, hstep, if_true, hlimit, Option.map_eq_some_iff] at h
      rcases h with ⟨rest, hrest, heq⟩
      cases hresult : rest.result with
      | error failure => simp [← heq, hresult, Except.map] at hok
      | ok others =>
        simp only [← heq, hresult, Except.map, Except.ok.injEq] at hok
        rw [← hok]
        exact .cons hreached (by simp [Order.step_eq, hstep, hlimit]) (ih hrest hresult)

theorem IsTrace.reduceStepped_eq {terms : List Term}
    (h : IsTrace book form order limit steps term terms)
    : reduceStepped book form order limit steps terms.length term =
      some { result := .ok terms, steps := steps + (terms.length - 1) } := by
  induction terms generalizing steps term with
  | nil => simpa using h.head?_eq
  | cons first rest ih =>
    rcases h.exists_eq_cons with ⟨_, heq⟩
    rw [List.cons.injEq] at heq
    rw [heq.1] at h ⊢
    rw [List.length_cons, reduceStepped]
    cases rest with
    | nil =>
      cases hreached : form.reached term with
      | true => simp
      | false =>
        cases h.last 0 term rfl rfl with
        | inl hlast => simp [hreached] at hlast
        | inr hstep =>
          rw [Nat.add_zero] at hstep
          simp [hstep]
    | cons next rest =>
      rcases h.uncons with ⟨hreached, hstep, hnext⟩
      simp only [hreached, hstep, Bool.false_eq_true, if_false, if_true]
      rw [ih hnext]
      simp only [Option.bind_eq_bind, Option.bind_some, pure, Except.map, Option.some.injEq,
        Reduction.mk.injEq, true_and, List.length_cons]
      omega

theorem exists_reduceStepped_iff (terms : List Term) (made : Nat)
    : (∃ fuel, reduceStepped book form order limit 0 fuel term =
        some { result := .ok terms, steps := made }) ↔
      IsTrace book form order limit 0 term terms ∧ made + 1 = terms.length := by
  constructor
  · intro h
    rcases h with ⟨fuel, hreduce⟩
    have hsteps := (reduceStepped_ok hreduce rfl).1
    rw [Nat.zero_add] at hsteps
    exact ⟨isTrace_of_reduceStepped hreduce rfl, hsteps⟩
  · intro h
    refine ⟨terms.length, ?_⟩
    rw [h.1.reduceStepped_eq, ← h.2]
    simp

theorem exists_reduce_iff (final : Final) (made : Nat)
    : (∃ fuel, reduce book form order limit 0 fuel term =
        some { result := .ok final, steps := made }) ↔
      ∃ terms, IsTrace book form order limit 0 term terms ∧ made + 1 = terms.length ∧
        terms.getLast? = some final.term ∧ final.stuck = !form.reached final.term := by
  constructor
  · intro h
    rcases h with ⟨fuel, hreduce⟩
    rw [reduce_eq, Option.map_eq_some_iff] at hreduce
    rcases hreduce with ⟨reduction, hreduction, heq⟩
    rw [Reduction.mk.injEq] at heq
    cases hresult : reduction.result with
    | error failure => simp [hresult, Except.map] at heq
    | ok terms =>
      simp only [hresult, Except.map, Except.ok.injEq] at heq
      have htrace := isTrace_of_reduceStepped hreduction hresult
      have hsteps := (reduceStepped_ok hreduction hresult).1
      rcases htrace.exists_eq_cons with ⟨rest, hcons⟩
      refine ⟨terms, htrace, by omega, ?_, ?_⟩
      · rw [← heq.1, hcons]
        simp [Final.ofTrace, List.getLast?_eq_some_getLast]
      · rw [← heq.1]
        rfl
  · intro h
    rcases h with ⟨terms, htrace, hsteps, hlast, hstuck⟩
    refine ⟨terms.length, ?_⟩
    rw [reduce_eq, htrace.reduceStepped_eq, ← hsteps]
    simp only [Option.map_some, Except.map, Option.some.injEq, Reduction.mk.injEq, Except.ok.injEq]
    refine ⟨?_, by omega⟩
    cases final with
    | mk last stuck =>
      simp only at hlast hstuck
      simp [Final.ofTrace, List.getLastD_eq_getLast?, hlast, hstuck]

-- Both fail at the same step, for one is the other with its trace forgotten.
theorem exists_reduceStepped_error_iff (failure : Failure) (made : Nat)
    : (∃ fuel, reduceStepped book form order limit 0 fuel term =
        some { result := .error failure, steps := made }) ↔
      (∃ fuel, reduce book form order limit 0 fuel term =
        some { result := .error failure, steps := made }) := by
  apply exists_congr
  intro fuel
  rw [reduce_eq]
  cases reduceStepped book form order limit 0 fuel term with
  | none => simp
  | some reduction =>
    rcases reduction with ⟨result, count⟩
    cases result with
    | error cause => simp [Except.map]
    | ok terms => simp [Except.map]

end

def Term.isApplication : Term → Bool
  | app _ _ => true
  | _ => false

theorem Form.reached_weakHead (term : Term) : weakHead.reached term = !term.isApplication := by
  cases term <;> rfl

/--
The terms up to the first one that is no application, and with that one.
-/
def upToHeadForm (terms : List Term) : List Term :=
  terms.takeWhile Term.isApplication ++ (terms.dropWhile Term.isApplication).take 1

theorem IsTrace.weakHead {book : Book} {order : Order} {limit : Option Limit} {steps : Nat}
    {term : Term} {terms : List Term} (h : IsTrace book .normal order limit steps term terms)
    : IsTrace book .weakHead order limit steps term (upToHeadForm terms) := by
  induction terms generalizing steps term with
  | nil => simpa using h.head?_eq
  | cons first rest ih =>
    rcases h.exists_eq_cons with ⟨_, heq⟩
    rw [List.cons.injEq] at heq
    rw [heq.1] at h ⊢
    cases happ : term.isApplication with
    | false =>
      simp only [upToHeadForm, List.takeWhile_cons, List.dropWhile_cons, happ,
        Bool.false_eq_true, if_false, List.nil_append, List.take_succ_cons, List.take_zero]
      exact .singleton (Or.inl (by simp [Form.reached_weakHead, happ]))
    | true =>
      have hcons : upToHeadForm (term :: rest) =
          term :: upToHeadForm rest := by
        simp [upToHeadForm, happ]
      rw [hcons]
      cases rest with
      | nil =>
        have hlast := h.last 0 term rfl rfl
        simp only [Form.reached, Bool.false_eq_true, false_or] at hlast
        exact .singleton (Or.inr hlast)
      | cons next rest =>
        rcases h.uncons with ⟨_, hstep, hnext⟩
        exact .cons (by simp [Form.reached_weakHead, happ]) hstep (ih hnext)

theorem Reporter.warn_stuckWarning (reporter : Reporter)
    : reporter.warn Session.stuckWarning = (reporter.write (reporter.warning "no redex left"), none) := by
  have hhidden : Session.stuckWarning.hasExcerpt = false := by rfl
  have hbelow : Session.stuckWarning.below reporter.paint .magenta = "" := by
    simp [Diagnostic.below, hhidden]
  rw [warn_eq, hbelow, String.append_empty]
  · rfl
  · simp [hhidden]

/--
What a reduction writes: one to the result warns if its last term does not have the form.
-/
def Session.warnings (session : Session) : Mode → Except Failure (List Term) → String
  | .run, .ok terms =>
    if terms.getLast?.all session.form.reached then "" else session.reporter.warning "no redex left"
  | _, _ => ""

theorem Session.eq_of_reduce {session after : Session} {fuel : Nat} {term : Term} {mode : Mode}
    {result : Except Failure (List Term)} (h : session.reduce fuel term mode = some (after, result))
    : after = { session with reporter := session.reporter.write (session.warnings mode result) } := by
  cases mode with
  | run =>
    simp only [reduce, Option.bind_eq_bind, Option.bind_eq_some_iff] at h
    rcases h with ⟨reduction, hreduction, hend⟩
    cases hresult : reduction.result with
    | error failure =>
      simp only [hresult, pure, Option.some.injEq, Prod.mk.injEq] at hend
      rw [← hend.1, ← hend.2]
      simp [warnings]
    | ok final =>
      simp only [hresult, pure, Option.some.injEq, Prod.mk.injEq] at hend
      rw [← hend.1, ← hend.2, stuck_eq_of_reduce hreduction hresult]
      cases hreached : session.form.reached final.term with
      | true => simp [warnings, hreached]
      | false => simp [warnings, hreached, Reporter.warn_stuckWarning]
  | stepped =>
    simp only [reduce, Option.bind_eq_bind, Option.bind_eq_some_iff, pure, Option.some.injEq,
      Prod.mk.injEq] at h
    rcases h with ⟨reduction, _, hafter, _⟩
    simp [← hafter, warnings]
  | unknown name =>
    simp only [reduce, Option.some.injEq, Prod.mk.injEq] at h
    simp [← h.1, warnings]

section

variable (book : Book) (form : Form) (order : Order) (limit : Option Limit) (term : Term)

/--
A reduction that keeps every term and one to the result end alike: the one gives a trace exactly if the
other gives the last term of it, after as many steps, and they fail for the same reason after as many
steps. In a session the one to the result gives its last term alone, and warns, once, if that term does
not have the form; the other never warns. The terms up to a weak head normal form are those up to a normal
form, as far as the first one that is no application.
-/
theorem reductions_agree
    : (∀ terms made,
        (∃ fuel, reduceStepped book form order limit 0 fuel term =
          some { result := .ok terms, steps := made }) ↔
        IsTrace book form order limit 0 term terms ∧ made + 1 = terms.length) ∧
      (∀ final made,
        (∃ fuel, reduce book form order limit 0 fuel term =
          some { result := .ok final, steps := made }) ↔
        ∃ terms, IsTrace book form order limit 0 term terms ∧ made + 1 = terms.length ∧
          terms.getLast? = some final.term ∧ final.stuck = !form.reached final.term) ∧
      (∀ failure made,
        (∃ fuel, reduceStepped book form order limit 0 fuel term =
          some { result := .error failure, steps := made }) ↔
        (∃ fuel, reduce book form order limit 0 fuel term =
          some { result := .error failure, steps := made })) ∧
      (∀ (session after : Session) fuel mode result,
        session.reduce fuel term mode = some (after, result) →
        after = { session with reporter := session.reporter.write (session.warnings mode result) }) ∧
      (∀ (session : Session) fuel,
        (session.reduce fuel term .run).map Prod.snd =
            (reduce session.book session.form session.order session.limit 0
              (fuelFor session.limit fuel) term).map
                (fun reduction => reduction.result.map (fun final => [final.term])) ∧
          (session.reduce fuel term .stepped).map Prod.snd =
            (reduceStepped session.book session.form session.order session.limit 0
              (fuelFor session.limit fuel) term).map Reduction.result) ∧
      (∀ terms made,
        (∃ fuel, reduceStepped book .normal order limit 0 fuel term =
          some { result := .ok terms, steps := made }) →
        ∃ fuel, reduceStepped book .weakHead order limit 0 fuel term =
          some { result := .ok (upToHeadForm terms), steps := (upToHeadForm terms).length - 1 }) := by
  refine ⟨exists_reduceStepped_iff, exists_reduce_iff, exists_reduceStepped_error_iff, ?_, ?_, ?_⟩
  · intro session after fuel mode result hreduce
    exact Session.eq_of_reduce hreduce
  · intro session fuel
    exact ⟨session.reduced_eq fuel term .run, session.reduced_eq fuel term .stepped⟩
  · intro terms made hnormal
    have htrace := ((exists_reduceStepped_iff terms made).1 hnormal).1.weakHead
    refine ⟨(upToHeadForm terms).length, ?_⟩
    rw [htrace.reduceStepped_eq, Nat.zero_add]

end

end NamedLambda
