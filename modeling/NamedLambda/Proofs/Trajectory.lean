import NamedLambda.Reduction.Reduce
import NamedLambda.Proofs.Contraction

/-!
This module contains the trajectory of a reduction: the term after any number of steps, without regard
to limits and fuel. What a reduction gives is the end of the trajectory or all of it, and it fails for
a fault on the trajectory or for its limit.
-/

namespace NamedLambda

/--
The term after `count` steps that reduce something on the way to `form`, if so many are made.
-/
def Term.after (book : Book) (form : Form) : (count : Nat) → Term → Except Fault (Option Term)
  | 0, term => .ok (some term)
  | count + 1, term =>
    if form.reached term then .ok none
    else
      match term.step book with
      | .error fault => .error fault
      | .ok progress => if progress.reduced then progress.term.after book form count else .ok none

/--
What can happen to `term` after `steps` steps of a reduction.
-/
inductive Turn (book : Book) (form : Form) (limit : Option Limit) (steps : Nat) (term : Term) : Prop
    where
  | reached (h : form.reached term = true)
  | failed (fault : Fault) (h : form.reached term = false) (hstep : term.step book = .error fault)
  | stuck (h : form.reached term = false)
    (hstep : term.step book = .ok { term, reduced := false })
  | exceeded (next : Term) (failure : Failure) (h : form.reached term = false)
    (hstep : term.step book = .ok { term := next, reduced := true })
    (hlimit : limit.bind (fun limit => limit.exceeded? (steps + 1)) = some failure)
  | reduced (next : Term) (h : form.reached term = false)
    (hstep : term.step book = .ok { term := next, reduced := true })
    (hlimit : limit.bind (fun limit => limit.exceeded? (steps + 1)) = none)

theorem turn (book : Book) (form : Form) (limit : Option Limit) (steps : Nat) (term : Term)
    : Turn book form limit steps term := by
  cases hreached : form.reached term with
  | true => exact .reached hreached
  | false =>
    cases hstep : term.step book with
    | error fault => exact .failed fault hreached hstep
    | ok progress =>
      rcases progress with ⟨next, reduced⟩
      cases reduced with
      | false =>
        have hsame : next = term := (Term.contracts_of_step hstep).2 rfl
        rw [hsame] at hstep
        exact .stuck hreached hstep
      | true =>
        cases hlimit : limit.bind (fun limit => limit.exceeded? (steps + 1)) with
        | some failure => exact .exceeded next failure hreached hstep hlimit
        | none => exact .reduced next hreached hstep hlimit

theorem Limit.failure_of_exceeded? {bound : Limit} {made : Nat} {failure : Failure}
    (h : bound.exceeded? made = some failure)
    : (∃ count, bound = .steps count ∧ failure = .stepLimit count) ∨
      (bound = .blank ∧ failure = .fault .blankLimit) := by
  cases bound with
  | steps count =>
    simp only [exceeded?] at h
    split at h
    · simp only [Option.some.injEq] at h
      exact Or.inl ⟨count, rfl, h.symm⟩
    · simp at h
  | blank =>
    simp only [exceeded?, Option.some.injEq] at h
    exact Or.inr ⟨rfl, h.symm⟩

theorem Order.step_eq (order : Order) (book : Book) (limit : Option Limit) (steps : Nat) (term : Term)
    : order.step book limit steps term =
      match term.step book with
      | .error fault => { result := .error (.fault fault), steps }
      | .ok progress =>
        if progress.reduced then
          match limit.bind (fun limit => limit.exceeded? (steps + 1)) with
          | some failure => { result := .error failure, steps := steps + 1 }
          | none => { result := .ok progress, steps := steps + 1 }
        else { result := .ok progress, steps } := by
  cases order
  rfl

section

variable {book : Book} {form : Form}

theorem Term.after_goodIn (good : book.Good) {count : Nat} {term other : Term}
    (hgood : term.GoodIn book.names) (h : term.after book form count = .ok (some other))
    : other.GoodIn book.names := by
  induction count generalizing term with
  | zero =>
    simp only [after, Except.ok.injEq, Option.some.injEq] at h
    rw [← h]
    exact hgood
  | succ count ih =>
    cases turn book form none count term with
    | reached hreached => simp [after, hreached] at h
    | failed fault hreached hstep => simp [after, hreached, hstep] at h
    | stuck hreached hstep => simp [after, hreached, hstep] at h
    | exceeded next failure hreached hstep hlimit => simp at hlimit
    | reduced next hreached hstep hlimit =>
      simp only [after, hreached, hstep, Bool.false_eq_true, if_false, if_true] at h
      apply ih _ h
      exact ((contracts_of_step hstep).1 rfl).goodIn good hgood

theorem Term.after_add {count : Nat} {term middle : Term}
    (h : term.after book form count = .ok (some middle)) (more : Nat)
    : term.after book form (count + more) = middle.after book form more := by
  induction count generalizing term with
  | zero =>
    simp only [after, Except.ok.injEq, Option.some.injEq] at h
    rw [h, Nat.zero_add]
  | succ count ih =>
    rw [Nat.add_right_comm, after]
    rw [after] at h
    split
    · next hreached => simp [hreached] at h
    · next hreached =>
      rw [if_neg hreached] at h
      cases hstep : term.step book with
      | error fault => simp [hstep] at h
      | ok progress =>
        simp only [hstep] at h ⊢
        split
        · next hreduced =>
          rw [if_pos hreduced] at h
          exact ih h
        · next hreduced => simp [hreduced] at h

theorem Term.exists_after (good : book.Good) (count : Nat) {term : Term}
    (hgood : term.GoodIn book.names) : ∃ other?, term.after book form count = .ok other? := by
  induction count generalizing term with
  | zero => exact ⟨_, rfl⟩
  | succ count ih =>
    cases turn book form none count term with
    | reached hreached => exact ⟨none, by simp [after, hreached]⟩
    | failed fault hreached hstep =>
      rcases exists_step hgood.refs_mem with ⟨progress, hok⟩
      simp [hok] at hstep
    | stuck hreached hstep => exact ⟨none, by simp [after, hreached, hstep]⟩
    | exceeded next failure hreached hstep hlimit => simp at hlimit
    | reduced next hreached hstep hlimit =>
      have hnext := ((contracts_of_step hstep).1 rfl).goodIn good hgood
      simp only [after, hreached, hstep, Bool.false_eq_true, if_false, if_true]
      exact ih hnext

end

section

variable {book : Book} {form : Form} {order : Order} {limit : Option Limit} {steps fuel : Nat}
  {term : Term}

theorem reduceStepped_succ (hreached : form.reached term = false)
    : reduceStepped book form order limit steps (fuel + 1) term =
      match term.step book with
      | .error fault => some { result := .error (.fault fault), steps }
      | .ok progress =>
        if progress.reduced then
          match limit.bind (fun limit => limit.exceeded? (steps + 1)) with
          | some failure => some { result := .error failure, steps := steps + 1 }
          | none =>
            (reduceStepped book form order limit (steps + 1) fuel progress.term).map
              (fun rest => { rest with result := rest.result.map (term :: ·) })
        else some { result := .ok [term], steps } := by
  simp only [reduceStepped, hreached, Order.step_eq, Bool.false_eq_true, if_false]
  cases hstep : term.step book with
  | error fault => rfl
  | ok progress =>
    cases hreduced : progress.reduced with
    | false => simp [hreduced]
    | true =>
      cases hlimit : limit.bind (fun limit => limit.exceeded? (steps + 1)) with
      | some failure => simp [hreduced]
      | none =>
        simp only [if_true, hreduced]
        cases reduceStepped book form order limit (steps + 1) fuel progress.term <;> rfl

theorem reduceStepped_mono {reduction : Reduction (List Term)} {more : Nat}
    (h : reduceStepped book form order limit steps fuel term = some reduction) (hle : fuel ≤ more)
    : reduceStepped book form order limit steps more term = some reduction := by
  induction fuel generalizing steps term reduction more with
  | zero => simp [reduceStepped] at h
  | succ fuel ih =>
    rcases Nat.exists_eq_add_of_le hle with ⟨extra, hmore⟩
    rw [hmore, Nat.add_right_comm]
    cases hreached : form.reached term with
    | true => simpa [reduceStepped, hreached] using h
    | false =>
      rw [reduceStepped_succ hreached] at h ⊢
      cases turn book form limit steps term with
      | reached h' => simp [hreached] at h'
      | failed fault _ hstep => simpa [hstep] using h
      | stuck _ hstep => simpa [hstep] using h
      | exceeded next failure _ hstep hlimit => simpa [hstep, hlimit] using h
      | reduced next _ hstep hlimit =>
        simp only [hstep, hlimit, if_true, Option.map_eq_some_iff] at h ⊢
        rcases h with ⟨rest, hrest, heq⟩
        exact ⟨rest, ih hrest (by omega), heq⟩

theorem reduceStepped_ok {reduction : Reduction (List Term)} {terms : List Term}
    (h : reduceStepped book form order limit steps fuel term = some reduction)
    (hok : reduction.result = .ok terms)
    : reduction.steps + 1 = steps + terms.length ∧
      ∀ count, term.after book form count = .ok terms[count]? := by
  induction fuel generalizing steps term reduction terms with
  | zero => simp [reduceStepped] at h
  | succ fuel ih =>
    -- A trace of one term ends at once.
    have hend : (∀ count, term.after book form (count + 1) = .ok none) →
        ∀ count, term.after book form count = .ok [term][count]? := by
      intro hnone count
      cases count with
      | zero => rfl
      | succ count => simp [hnone]
    cases turn book form limit steps term with
    | reached hreached =>
      simp only [reduceStepped, hreached, if_true, Option.some.injEq] at h
      subst h
      simp only [Except.ok.injEq] at hok
      subst hok
      exact ⟨rfl, hend (fun count => by simp [Term.after, hreached])⟩
    | failed fault hreached hstep =>
      simp only [reduceStepped_succ hreached, hstep, Option.some.injEq] at h
      simp [← h] at hok
    | stuck hreached hstep =>
      simp only [reduceStepped_succ hreached, hstep, Bool.false_eq_true, if_false,
        Option.some.injEq] at h
      subst h
      simp only [Except.ok.injEq] at hok
      subst hok
      exact ⟨rfl, hend (fun count => by simp [Term.after, hreached, hstep])⟩
    | exceeded next failure hreached hstep hlimit =>
      simp only [reduceStepped_succ hreached, hstep, if_true, hlimit, Option.some.injEq] at h
      simp [← h] at hok
    | reduced next hreached hstep hlimit =>
      simp only [reduceStepped_succ hreached, hstep, if_true, hlimit,
        Option.map_eq_some_iff] at h
      rcases h with ⟨rest, hrest, heq⟩
      subst heq
      cases hresult : rest.result with
      | error failure => simp [hresult, Except.map] at hok
      | ok others =>
        simp only [hresult, Except.map, Except.ok.injEq] at hok
        subst hok
        rcases ih hrest hresult with ⟨hsteps, hafter⟩
        constructor
        · simp only [List.length_cons]
          omega
        · intro count
          cases count with
          | zero => rfl
          | succ count => simp [Term.after, hreached, hstep, hafter]

-- The limit holds at every step if it holds at the last one.
theorem exists_reduceStepped_within {count : Nat} {last : Term}
    (h : term.after book form count = .ok (some last))
    (hend : term.after book form (count + 1) = .ok none) (order : Order)
    (hwithin : ∀ bound, limit = some bound → steps + count ≤ bound.allowance)
    : ∃ terms, reduceStepped book form order limit steps (count + 1) term =
        some { result := .ok terms, steps := steps + count } := by
  induction count generalizing term steps with
  | zero =>
    cases turn book form limit steps term with
    | reached hreached => exact ⟨[term], by simp [reduceStepped, hreached]⟩
    | failed fault hreached hstep => simp [Term.after, hreached, hstep] at hend
    | stuck hreached hstep => exact ⟨[term], by simp [reduceStepped_succ hreached, hstep]⟩
    | exceeded next failure hreached hstep hlimit => simp [Term.after, hreached, hstep] at hend
    | reduced next hreached hstep hlimit => simp [Term.after, hreached, hstep] at hend
  | succ count ih =>
    cases turn book form limit steps term with
    | reached hreached => simp [Term.after, hreached] at h
    | failed fault hreached hstep => simp [Term.after, hreached, hstep] at h
    | stuck hreached hstep => simp [Term.after, hreached, hstep] at h
    | exceeded next failure hreached hstep hlimit =>
      rcases Option.bind_eq_some_iff.1 hlimit with ⟨bound, hbound, hexceeded⟩
      have hallowed := hwithin bound hbound
      rw [(bound.exceeded?_eq_none_iff (steps + 1) (by omega)).2 (by omega)] at hexceeded
      simp at hexceeded
    | reduced next hreached hstep hlimit =>
      rw [Term.after] at h hend
      simp only [hreached, hstep, Bool.false_eq_true, if_false, if_true] at h hend
      have hnext : ∀ bound, limit = some bound → steps + 1 + count ≤ bound.allowance := by
        intro bound hbound
        have := hwithin bound hbound
        omega
      rcases ih h hend hnext with ⟨terms, hterms⟩
      refine ⟨term :: terms, ?_⟩
      simp only [reduceStepped_succ hreached, hstep, hlimit, hterms, if_true, Option.map_some,
        Except.map, Option.some.injEq, Reduction.mk.injEq, true_and]
      omega

theorem exists_reduceStepped {count : Nat} {last : Term}
    (h : term.after book form count = .ok (some last))
    (hend : term.after book form (count + 1) = .ok none) (order : Order) (steps : Nat)
    : ∃ terms, reduceStepped book form order none steps (count + 1) term =
        some { result := .ok terms, steps := steps + count } := by
  apply exists_reduceStepped_within h hend
  simp

-- The limit is exceeded by the first step that it does not allow.
theorem reduceStepped_error {reduction : Reduction (List Term)} {failure : Failure}
    (h : reduceStepped book form order limit steps fuel term = some reduction)
    (herror : reduction.result = .error failure)
    (hwithin : ∀ bound, limit = some bound → steps ≤ bound.allowance)
    : (∃ count fault, term.after book form count = .error fault ∧ failure = .fault fault) ∨
      (∃ bound, limit = some bound ∧ bound.exceeded? reduction.steps = some failure ∧
        reduction.steps = bound.allowance + 1) := by
  induction fuel generalizing steps term reduction with
  | zero => simp [reduceStepped] at h
  | succ fuel ih =>
    cases turn book form limit steps term with
    | reached hreached =>
      simp only [reduceStepped, hreached, if_true, Option.some.injEq] at h
      simp [← h] at herror
    | failed fault hreached hstep =>
      simp only [reduceStepped_succ hreached, hstep, Option.some.injEq] at h
      subst h
      simp only [Except.error.injEq] at herror
      exact Or.inl ⟨1, fault, by simp [Term.after, hreached, hstep], herror.symm⟩
    | stuck hreached hstep =>
      simp only [reduceStepped_succ hreached, hstep, Bool.false_eq_true, if_false,
        Option.some.injEq] at h
      simp [← h] at herror
    | exceeded next cause hreached hstep hlimit =>
      simp only [reduceStepped_succ hreached, hstep, if_true, hlimit, Option.some.injEq] at h
      subst h
      simp only [Except.error.injEq] at herror
      rw [← herror]
      rcases Option.bind_eq_some_iff.1 hlimit with ⟨bound, hbound, hexceeded⟩
      refine Or.inr ⟨bound, hbound, hexceeded, ?_⟩
      have hsteps := hwithin bound hbound
      have hbeyond : ¬steps + 1 ≤ bound.allowance := by
        rw [← bound.exceeded?_eq_none_iff (steps + 1) (by omega), hexceeded]
        simp
      simp only
      omega
    | reduced next hreached hstep hlimit =>
      simp only [reduceStepped_succ hreached, hstep, if_true, hlimit,
        Option.map_eq_some_iff] at h
      rcases h with ⟨rest, hrest, heq⟩
      subst heq
      cases hresult : rest.result with
      | ok others => simp [hresult, Except.map] at herror
      | error cause =>
        simp only [hresult, Except.map, Except.error.injEq] at herror
        subst herror
        have hnext : ∀ bound, limit = some bound → steps + 1 ≤ bound.allowance := by
          intro bound hbound
          rw [hbound, Option.bind_some] at hlimit
          exact (bound.exceeded?_eq_none_iff (steps + 1) (by omega)).1 hlimit
        rcases ih hrest hresult hnext with ⟨count, fault, hafter, hfault⟩ | hexceeded
        · refine Or.inl ⟨count + 1, fault, ?_, hfault⟩
          simp [Term.after, hreached, hstep, hafter]
        · exact Or.inr hexceeded

/-!
A reduction to the result ends like the one that keeps every term, with the last of these terms.
-/

def Final.ofTrace (form : Form) (terms : List Term) : Final :=
  let term := terms.getLastD default
  { term, stuck := !form.reached term }

theorem reduce_eq (book : Book) (form : Form) (order : Order) (limit : Option Limit)
    (steps fuel : Nat) (term : Term)
    : reduce book form order limit steps fuel term =
      (reduceStepped book form order limit steps fuel term).map
        (fun reduction =>
          { result := reduction.result.map (Final.ofTrace form), steps := reduction.steps }) := by
  induction fuel generalizing steps term with
  | zero => rfl
  | succ fuel ih =>
    cases turn book form limit steps term with
    | reached hreached => simp [reduce, reduceStepped, hreached, Except.map, Final.ofTrace]
    | failed fault hreached hstep =>
      simp [reduce, reduceStepped_succ hreached, Order.step_eq, hreached, hstep, Except.map]
    | stuck hreached hstep =>
      simp [reduce, reduceStepped_succ hreached, Order.step_eq, hreached, hstep, Except.map,
        Final.ofTrace]
    | exceeded next failure hreached hstep hlimit =>
      simp [reduce, reduceStepped_succ hreached, Order.step_eq, hreached, hstep, hlimit, Except.map]
    | reduced next hreached hstep hlimit =>
      simp only [reduce, reduceStepped_succ hreached, Order.step_eq, hreached, hstep, hlimit, ih,
        Bool.false_eq_true, if_false, if_true]
      cases hrest : reduceStepped book form order limit (steps + 1) fuel next with
      | none => rfl
      | some rest =>
        cases hresult : rest.result with
        | error failure => simp [hresult, Except.map]
        | ok others =>
          have hfirst := (reduceStepped_ok hrest hresult).2 0
          cases others with
          | nil => simp [Term.after] at hfirst
          | cons first more => simp [hresult, Except.map, Final.ofTrace]

theorem reduce_mono {reduction : Reduction Final} {more : Nat}
    (h : reduce book form order limit steps fuel term = some reduction) (hle : fuel ≤ more)
    : reduce book form order limit steps more term = some reduction := by
  rw [reduce_eq, Option.map_eq_some_iff] at h ⊢
  rcases h with ⟨trace, htrace, heq⟩
  exact ⟨trace, reduceStepped_mono htrace hle, heq⟩

theorem reduce_ok {reduction : Reduction Final} {final : Final}
    (h : reduce book form order limit steps fuel term = some reduction)
    (hok : reduction.result = .ok final)
    : ∃ count, reduction.steps = steps + count ∧
        term.after book form count = .ok (some final.term) ∧
        term.after book form (count + 1) = .ok none := by
  rw [reduce_eq, Option.map_eq_some_iff] at h
  rcases h with ⟨trace, htrace, heq⟩
  subst heq
  cases hresult : trace.result with
  | error failure => simp [hresult, Except.map] at hok
  | ok terms =>
    simp only [hresult, Except.map, Except.ok.injEq] at hok
    subst hok
    rcases reduceStepped_ok htrace hresult with ⟨hsteps, hafter⟩
    have hfirst := hafter 0
    cases terms with
    | nil => simp [Term.after] at hfirst
    | cons first more =>
      rw [List.length_cons] at hsteps
      refine ⟨more.length, by simp only; omega, ?_, ?_⟩
      · rw [hafter]
        simp [Final.ofTrace, List.getLast?_eq_getElem?]
      · rw [hafter]
        simp

theorem stuck_eq_of_reduce {reduction : Reduction Final} {final : Final}
    (h : reduce book form order limit steps fuel term = some reduction)
    (hok : reduction.result = .ok final) : final.stuck = !form.reached final.term := by
  rw [reduce_eq, Option.map_eq_some_iff] at h
  rcases h with ⟨trace, htrace, heq⟩
  subst heq
  cases hresult : trace.result with
  | error failure => simp [hresult, Except.map] at hok
  | ok terms =>
    simp only [hresult, Except.map, Except.ok.injEq] at hok
    rw [← hok]
    rfl

theorem exists_reduce_within {count : Nat} {last : Term}
    (h : term.after book form count = .ok (some last))
    (hend : term.after book form (count + 1) = .ok none) (order : Order)
    (hwithin : ∀ bound, limit = some bound → steps + count ≤ bound.allowance)
    : ∃ final, reduce book form order limit steps (count + 1) term =
        some { result := .ok final, steps := steps + count } ∧ final.term = last := by
  rcases exists_reduceStepped_within h hend order hwithin with ⟨terms, hterms⟩
  have hreduce : reduce book form order limit steps (count + 1) term =
      some { result := .ok (Final.ofTrace form terms), steps := steps + count } := by
    rw [reduce_eq, hterms]
    rfl
  refine ⟨Final.ofTrace form terms, hreduce, ?_⟩
  rcases reduce_ok hreduce rfl with ⟨made, hmade, hfinal, _⟩
  have hcount : made = count := by
    simp only at hmade
    omega
  rw [hcount, h, Except.ok.injEq, Option.some.injEq] at hfinal
  exact hfinal.symm

theorem exists_reduce {count : Nat} {last : Term}
    (h : term.after book form count = .ok (some last))
    (hend : term.after book form (count + 1) = .ok none) (order : Order) (steps : Nat)
    : ∃ final, reduce book form order none steps (count + 1) term =
        some { result := .ok final, steps := steps + count } ∧ final.term = last := by
  apply exists_reduce_within h hend
  simp

theorem reduce_error {reduction : Reduction Final} {failure : Failure}
    (h : reduce book form order limit steps fuel term = some reduction)
    (herror : reduction.result = .error failure)
    (hwithin : ∀ bound, limit = some bound → steps ≤ bound.allowance)
    : (∃ count fault, term.after book form count = .error fault ∧ failure = .fault fault) ∨
      (∃ bound, limit = some bound ∧ bound.exceeded? reduction.steps = some failure ∧
        reduction.steps = bound.allowance + 1) := by
  rw [reduce_eq, Option.map_eq_some_iff] at h
  rcases h with ⟨trace, htrace, heq⟩
  subst heq
  cases hresult : trace.result with
  | ok terms => simp [hresult, Except.map] at herror
  | error cause =>
    simp only [hresult, Except.map, Except.error.injEq] at herror
    subst herror
    exact reduceStepped_error htrace hresult hwithin

end

end NamedLambda
