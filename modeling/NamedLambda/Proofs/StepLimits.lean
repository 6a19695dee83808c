import NamedLambda.Proofs.Mistakes
import NamedLambda.Proofs.StuckTerms

/-!
This module contains reductions under a limit on the number of steps. Such a reduction always ends. It
gives what a reduction without a limit gives, if that takes no more steps than are allowed, and otherwise
fails at the first step that is not.
-/

namespace NamedLambda

/--
A reference that is the first redex of some term on the way to `form`.
-/
def Term.Meets (book : Book) (form : Form) (term : Term) (name : String) : Prop :=
  ∃ count other position, term.after book form count = .ok (some other) ∧
    form.reached other = false ∧ other.FirstRedex position (.ref name)

section

variable {book : Book} {form : Form} {term : Term}

theorem Term.Meets.mem_names {name : String} (h : term.Meets book form name) (good : book.Good)
    (hterm : term.GoodIn book.names) : name ∈ book.names := by
  rcases h with ⟨count, other, position, hafter, _, hfirst⟩
  apply (after_goodIn good hterm hafter).refs_mem
  apply hfirst.reaches.mem_refs
  simp

theorem Term.exists_missing_of_after {count : Nat} {fault : Fault}
    (h : term.after book form count = .error fault)
    : ∃ name, term.Meets book form name ∧ name ∉ book.names := by
  induction count generalizing term with
  | zero => simp [after] at h
  | succ count ih =>
    cases turn book form none 0 term with
    | reached hreached => simp [after, hreached] at h
    | failed cause hreached hstep =>
      cases tried book term with
      | contracted _ _ _ _ _ hstep' => simp [hstep'] at hstep
      | stuck _ hstep' => simp [hstep'] at hstep
      | missing position name hfirst hname _ =>
        exact ⟨name, ⟨0, term, position, rfl, hreached, hfirst⟩, hname⟩
    | stuck hreached hstep => simp [after, hreached, hstep] at h
    | exceeded next failure _ _ hlimit => simp at hlimit
    | reduced next hreached hstep _ =>
      simp only [after, hreached, hstep, Bool.false_eq_true, if_false, if_true] at h
      rcases ih h with ⟨name, ⟨made, other, position, hafter, hother, hfirst⟩, hname⟩
      refine ⟨name, ⟨made + 1, other, position, ?_, hother, hfirst⟩, hname⟩
      simp [after, hreached, hstep, hafter]

variable {order : Order} {limit : Option Limit}

theorem steps_le_of_reduce {bound : Limit} {fuel : Nat} {reduction : Reduction Final} {final : Final}
    (hlimit : limit = some bound)
    (h : reduce book form order limit 0 fuel term = some reduction)
    (hok : reduction.result = .ok final) : reduction.steps ≤ bound.allowance := by
  rw [reduce_eq, Option.map_eq_some_iff] at h
  rcases h with ⟨trace, htrace, heq⟩
  subst heq
  cases hresult : trace.result with
  | error failure => simp [hresult, Except.map] at hok
  | ok terms =>
    apply steps_le_of_limit hlimit _ htrace hresult
    omega

theorem exists_reduce_iff_after (final : Final) (made : Nat)
    : (∃ fuel, reduce book form order limit 0 fuel term =
        some { result := .ok final, steps := made }) ↔
      term.after book form made = .ok (some final.term) ∧
        term.after book form (made + 1) = .ok none ∧
        final.stuck = (!form.reached final.term) ∧
        ∀ bound, limit = some bound → made ≤ bound.allowance := by
  constructor
  · intro h
    rcases h with ⟨fuel, hreduce⟩
    rcases reduce_ok hreduce rfl with ⟨count, hcount, hlast, hnone⟩
    have hmade : made = count := by
      simp only at hcount
      omega
    rw [hmade]
    refine ⟨hlast, hnone, stuck_eq_of_reduce hreduce rfl, ?_⟩
    intro bound hbound
    rw [← hmade]
    exact steps_le_of_reduce hbound hreduce rfl
  · intro h
    rcases h with ⟨hlast, hnone, hstuck, hwithin⟩
    rw [← Nat.zero_add made] at hwithin
    rcases exists_reduce_within hlast hnone order hwithin with ⟨found, hreduce, hterm⟩
    have hfound : found = final := by
      have hstuck' := stuck_eq_of_reduce hreduce rfl
      rw [hterm, ← hstuck] at hstuck'
      cases found
      cases final
      simp only at hterm hstuck'
      rw [hterm, hstuck']
    rw [hfound, Nat.zero_add] at hreduce
    exact ⟨made + 1, hreduce⟩

theorem exists_reduce_limited_iff (count : Int) (final : Final) (made : Nat)
    : (∃ fuel, reduce book form order (some (.steps count)) 0 fuel term =
        some { result := .ok final, steps := made }) ↔
      made ≤ count.toNat ∧
        ∃ fuel, reduce book form order none 0 fuel term =
          some { result := .ok final, steps := made } := by
  rw [exists_reduce_iff_after, exists_reduce_iff_after]
  constructor
  · intro h
    rcases h with ⟨hlast, hnone, hstuck, hwithin⟩
    exact ⟨hwithin (.steps count) rfl, hlast, hnone, hstuck, by simp⟩
  · intro h
    rcases h with ⟨hmade, hlast, hnone, hstuck, _⟩
    refine ⟨hlast, hnone, hstuck, ?_⟩
    intro bound hbound
    rw [Option.some.injEq] at hbound
    rw [← hbound]
    exact hmade

-- The last try is not counted if it reduces nothing.
theorem step_of_stuck {fuel made : Nat} {final : Final}
    (h : reduce book form order limit 0 fuel term = some { result := .ok final, steps := made })
    (hstuck : final.stuck = true)
    : final.term.step book = .ok { term := final.term, reduced := false } := by
  have hreached := stuck_eq_of_reduce h rfl
  cases reached_or_stuck_of_reduce h rfl with
  | inl hform => simp [hform, hstuck] at hreached
  | inr hterm => exact hterm.step_eq book

theorem exists_reduce_of_limit (book : Book) (form : Form) (order : Order) (bound : Limit) (term : Term)
    : ∃ reduction, ∀ fuel, bound.allowance < fuel →
        reduce book form order (some bound) 0 fuel term = some reduction := by
  have hends : ∃ reduction, reduceStepped book form order (some bound) 0 (bound.allowance + 1) term =
      some reduction := by
    apply exists_reduceStepped_of_limit rfl
    · omega
    · omega
  rcases hends with ⟨reduction, hreduction⟩
  refine ⟨{ result := reduction.result.map (Final.ofTrace form), steps := reduction.steps }, ?_⟩
  intro fuel hfuel
  rw [reduce_eq, reduceStepped_mono hreduction hfuel]
  rfl

theorem exists_reduce_stepLimit {count : Int}
    (hknown : ∀ name, term.Meets book form name → name ∈ book.names)
    (hbeyond : ∀ final made,
      (∃ fuel, reduce book form order none 0 fuel term = some { result := .ok final, steps := made }) →
      count.toNat < made)
    : ∃ fuel, reduce book form order (some (.steps count)) 0 fuel term =
        some { result := .error (.stepLimit count), steps := count.toNat + 1 } := by
  rcases exists_reduce_of_limit book form order (.steps count) term with ⟨reduction, hreduction⟩
  have hreduce := hreduction (count.toNat + 1) (Nat.lt_succ_self _)
  refine ⟨count.toNat + 1, ?_⟩
  rw [hreduce]
  rcases reduction with ⟨result, made⟩
  cases result with
  | ok final =>
    rcases (exists_reduce_limited_iff count final made).1 ⟨_, hreduce⟩ with ⟨hmade, hends⟩
    have := hbeyond final made hends
    omega
  | error failure =>
    rcases reduce_error hreduce rfl (by simp) with
      ⟨step, fault, hfault, _⟩ | ⟨bound, hbound, hexceeded, hsteps⟩
    · rcases Term.exists_missing_of_after hfault with ⟨name, hmeets, hmissing⟩
      exact absurd (hknown name hmeets) hmissing
    · rw [Option.some.injEq] at hbound
      subst hbound
      rcases Limit.failure_of_exceeded? hexceeded with ⟨other, hother, hfailure⟩ | ⟨hblank, _⟩
      · rw [Limit.steps.injEq] at hother
        simp only [Limit.allowance] at hsteps
        rw [hfailure, ← hother, hsteps]
      · simp at hblank

end

/--
A reduction under a limit ends, with any fuel that is more than what the limit allows. It gives what a
reduction without a limit gives after the same number of steps, if that is allowed. If all references
that are met are known it otherwise fails for the limit, at the first step beyond it. A higher limit
changes no result. What is given ends the reduction: it has the form, or nothing in it can be reduced, and
only steps that reduce something are counted.
-/
theorem limited_reduction_exact (book : Book) (form : Form) (order : Order) (term : Term) (count : Int)
    : (∃ reduction, ∀ fuel, count.toNat < fuel →
        reduce book form order (some (.steps count)) 0 fuel term = some reduction) ∧
      (∀ final made,
        (∃ fuel, reduce book form order (some (.steps count)) 0 fuel term =
          some { result := .ok final, steps := made }) ↔
        made ≤ count.toNat ∧
          ∃ fuel, reduce book form order none 0 fuel term =
            some { result := .ok final, steps := made }) ∧
      ((∀ name, term.Meets book form name → name ∈ book.names) →
        (¬∃ final made, made ≤ count.toNat ∧
          ∃ fuel, reduce book form order none 0 fuel term =
            some { result := .ok final, steps := made }) →
        ∃ fuel, reduce book form order (some (.steps count)) 0 fuel term =
          some { result := .error (.stepLimit count), steps := count.toNat + 1 }) ∧
      (∀ more final made, count ≤ more →
        (∃ fuel, reduce book form order (some (.steps count)) 0 fuel term =
          some { result := .ok final, steps := made }) →
        ∃ fuel, reduce book form order (some (.steps more)) 0 fuel term =
          some { result := .ok final, steps := made }) ∧
      (∀ final made limit fuel,
        reduce book form order limit 0 fuel term = some { result := .ok final, steps := made } →
        term.after book form made = .ok (some final.term) ∧
          term.after book form (made + 1) = .ok none ∧
          (final.stuck = false → form.reached final.term = true) ∧
          (final.stuck = true →
            final.term.step book = .ok { term := final.term, reduced := false })) := by
  refine ⟨exists_reduce_of_limit book form order (.steps count) term, exists_reduce_limited_iff count,
    ?_, ?_, ?_⟩
  · intro hknown hnone
    apply exists_reduce_stepLimit hknown
    intro final made hends
    apply Nat.lt_of_not_le
    intro hmade
    exact hnone ⟨final, made, hmade, hends⟩
  · intro more final made hmore
    rw [exists_reduce_limited_iff, exists_reduce_limited_iff]
    intro h
    refine ⟨?_, h.2⟩
    have hmade := h.1
    omega
  · intro final made limit fuel hreduce
    rcases (exists_reduce_iff_after final made).1 ⟨fuel, hreduce⟩ with ⟨hlast, hnone, hstuck, _⟩
    refine ⟨hlast, hnone, ?_, step_of_stuck hreduce⟩
    intro hends
    simpa [hends] using hstuck

theorem limited_reduction_exact_divergent
    : let identity := Term.lam (some "x") (.var "x")
      let book := Book.ofList
        [{ name := "id", body := identity }, { name := "loop", body := .ref "loop" }]
      (∀ name, (Term.ref "loop").Meets book .normal name → name ∈ book.names) ∧
        (∃ fuel, reduce book .normal .normal (some (.steps (-1))) 0 fuel (.ref "loop") =
          some { result := .error (.stepLimit (-1)), steps := 1 }) ∧
        (∃ fuel, reduce book .normal .normal (some (.steps 3)) 0 fuel (.app (.ref "id") (.ref "id")) =
          some { result := .ok { term := identity, stuck := true }, steps := 3 }) := by
  intro identity book
  have good : book.Good := by decide
  have hterm : (Term.ref "loop").GoodIn book.names := by decide
  have hknown : ∀ name, (Term.ref "loop").Meets book .normal name → name ∈ book.names := by
    intro name hmeets
    exact hmeets.mem_names good hterm
  have hdiverges : ∀ fuel steps, reduce book .normal .normal none steps fuel (.ref "loop") = none := by
    intro fuel
    induction fuel with
    | zero =>
      intro steps
      rfl
    | succ fuel ih =>
      intro steps
      exact ih (steps + 1)
  refine ⟨hknown, ?_, ?_⟩
  · apply (limited_reduction_exact book .normal .normal (.ref "loop") (-1)).2.2.1 hknown
    intro hends
    rcases hends with ⟨final, made, _, fuel, hfuel⟩
    simp [hdiverges] at hfuel
  · apply ((limited_reduction_exact book .normal .normal (.app (.ref "id") (.ref "id")) 3).2.1 _ 3).2
    exact ⟨by decide, 4, rfl⟩

end NamedLambda
