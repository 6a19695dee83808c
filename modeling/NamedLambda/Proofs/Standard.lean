import Mathlib.Logic.Relation
import NamedLambda.Proofs.Instantiation
import NamedLambda.Proofs.WeakHead

/-!
This module contains reduction of nameless terms at any places, and its rearrangement into standard
reductions, which begin at the head. From it follows that weak-head reduction comes to an end wherever
any reduction comes to an abstraction.
-/

namespace NamedLambda

open Relation (ReflTransGen)

namespace Nameless

/--
One contraction or unfolding, at any place of a term.
-/
inductive Reduces (bodies : String → Option Nameless) : Nameless → Nameless → Prop where
  | contract {body argument : Nameless}
    : Reduces bodies (app (lam body) argument) (body.instantiate argument 0)
  | unfold {name : String} {body : Nameless} (h : bodies name = some body)
    : Reduces bodies (const name) body
  | body {body after : Nameless} (h : Reduces bodies body after)
    : Reduces bodies (lam body) (lam after)
  | function {function argument after : Nameless} (h : Reduces bodies function after)
    : Reduces bodies (app function argument) (app after argument)
  | argument {function argument after : Nameless} (h : Reduces bodies argument after)
    : Reduces bodies (app function argument) (app function after)

/--
The same at the head only. Unlike `headStep` it goes on to unfold a constant that is the whole term.
-/
inductive HeadReduces (bodies : String → Option Nameless) : Nameless → Nameless → Prop where
  | contract {body argument : Nameless}
    : HeadReduces bodies (app (lam body) argument) (body.instantiate argument 0)
  | unfold {name : String} {body : Nameless} (h : bodies name = some body)
    : HeadReduces bodies (const name) body
  | function {function argument after : Nameless} (h : HeadReduces bodies function after)
    : HeadReduces bodies (app function argument) (app after argument)

/--
Reductions that take all steps at the head first, and then go on in the parts of the term in the same way.
-/
inductive Standard (bodies : String → Option Nameless) : Nameless → Nameless → Prop where
  | bound (index : Nat) : Standard bodies (bound index) (bound index)
  | free (name : String) : Standard bodies (free name) (free name)
  | const (name : String) : Standard bodies (const name) (const name)
  | lam {body after : Nameless} (h : Standard bodies body after)
    : Standard bodies (lam body) (lam after)
  | app {function argument function' argument' : Nameless} (hf : Standard bodies function function')
    (ha : Standard bodies argument argument')
    : Standard bodies (app function argument) (app function' argument')
  | head {term middle after : Nameless} (hstep : HeadReduces bodies term middle)
    (h : Standard bodies middle after)
    : Standard bodies term after

def ClosedBodies (bodies : String → Option Nameless) : Prop :=
  ∀ name body, bodies name = some body → ∀ amount depth, body.shift amount depth = body

variable {bodies : String → Option Nameless}

theorem instantiate_of_shift {term : Nameless} (h : ∀ amount depth, term.shift amount depth = term)
    (value : Nameless) (depth : Nat) : term.instantiate value depth = term := by
  have hcancel := instantiate_shift_cancel term value 0 (Nat.le_refl depth) (Nat.le_refl depth)
  rw [h, h] at hcancel
  exact hcancel

section

variable (hclosed : ClosedBodies bodies)
include hclosed

theorem HeadReduces.shift {term after : Nameless} (h : HeadReduces bodies term after)
    (amount depth : Nat) : HeadReduces bodies (term.shift amount depth) (after.shift amount depth) := by
  induction h with
  | @contract body argument =>
    have hshift := shift_instantiate body argument amount 0 depth
    rw [Nat.zero_add] at hshift
    rw [hshift]
    exact .contract
  | unfold hbody =>
    rw [hclosed _ _ hbody]
    exact .unfold hbody
  | function _ ih => exact .function ih

theorem HeadReduces.instantiate {term after : Nameless} (h : HeadReduces bodies term after)
    (value : Nameless) (depth : Nat)
    : HeadReduces bodies (term.instantiate value depth) (after.instantiate value depth) := by
  induction h with
  | @contract body argument =>
    have hinstantiate := instantiate_instantiate body argument value 0 depth
    rw [Nat.zero_add] at hinstantiate
    rw [hinstantiate]
    exact .contract
  | unfold hbody =>
    rw [instantiate_of_shift (hclosed _ _ hbody)]
    exact .unfold hbody
  | function _ ih => exact .function ih

theorem Standard.shift {term after : Nameless} (h : Standard bodies term after) (amount depth : Nat)
    : Standard bodies (term.shift amount depth) (after.shift amount depth) := by
  induction h generalizing depth with
  | bound index =>
    simp only [Nameless.shift]
    split
    · exact .bound index
    · exact .bound (index + amount)
  | free name => exact .free name
  | const name => exact .const name
  | lam _ ih =>
    apply Standard.lam
    apply ih
  | app _ _ ihf iha =>
    apply Standard.app
    · apply ihf
    · apply iha
  | head hstep _ ih =>
    apply Standard.head
    · apply hstep.shift hclosed
    · apply ih

theorem Standard.instantiate {term after value other : Nameless} (h : Standard bodies term after)
    (hvalue : Standard bodies value other) (depth : Nat)
    : Standard bodies (term.instantiate value depth) (after.instantiate other depth) := by
  induction h generalizing depth with
  | bound index =>
    simp only [Nameless.instantiate]
    split
    · exact .bound index
    · split
      · apply hvalue.shift hclosed
      · exact .bound (index - 1)
  | free name => exact .free name
  | const name => exact .const name
  | lam _ ih =>
    apply Standard.lam
    apply ih
  | app _ _ ihf iha =>
    apply Standard.app
    · apply ihf
    · apply iha
  | head hstep _ ih =>
    apply Standard.head
    · apply hstep.instantiate hclosed
    · apply ih

end

theorem Standard.refl (term : Nameless) : Standard bodies term term := by
  induction term with
  | bound index => exact .bound index
  | free name => exact .free name
  | const name => exact .const name
  | lam body ih => exact .lam ih
  | app function argument ihf iha => exact .app ihf iha

theorem Standard.exists_lam {term body : Nameless} (h : Standard bodies term (.lam body))
    : ∃ inner, ReflTransGen (HeadReduces bodies) term (.lam inner) ∧ Standard bodies inner body := by
  generalize hafter : Nameless.lam body = after at h
  induction h with
  | bound index => simp at hafter
  | free name => simp at hafter
  | const name => simp at hafter
  | @lam inner _ hinner _ =>
    rw [Nameless.lam.injEq] at hafter
    rw [hafter]
    exact ⟨inner, .refl, hinner⟩
  | app _ _ _ _ => simp at hafter
  | head hstep _ ih =>
    rcases ih hafter with ⟨inner, hsteps, hinner⟩
    exact ⟨inner, .head hstep hsteps, hinner⟩

theorem Standard.of_headReduces {term middle after : Nameless}
    (hsteps : ReflTransGen (HeadReduces bodies) term middle) (h : Standard bodies middle after)
    : Standard bodies term after := by
  induction hsteps using ReflTransGen.head_induction_on with
  | refl => exact h
  | head hstep _ ih => exact .head hstep ih

theorem headReduces_function {function after : Nameless}
    (hsteps : ReflTransGen (HeadReduces bodies) function after) (argument : Nameless)
    : ReflTransGen (HeadReduces bodies) (.app function argument) (.app after argument) := by
  apply hsteps.lift (Nameless.app · argument)
  intro _ _ hstep
  exact .function hstep

-- A redex of which the function became an abstraction only on the way is contracted at the head as soon
-- as it is there. What was done in its parts before is done after that.
theorem Standard.step (hclosed : ClosedBodies bodies) {term middle after : Nameless}
    (h : Standard bodies term middle) (hstep : Reduces bodies middle after)
    : Standard bodies term after := by
  induction h generalizing after with
  | bound index => cases hstep
  | free name => cases hstep
  | const name =>
    cases hstep with
    | unfold hbody => exact .head (.unfold hbody) (.refl after)
  | lam _ ih =>
    cases hstep with
    | body hbody => exact .lam (ih hbody)
  | @app function argument _ argument' hf ha ihf iha =>
    cases hstep with
    | function hfunction => exact .app (ihf hfunction) ha
    | argument hargument => exact .app hf (iha hargument)
    | @contract body _ =>
      rcases hf.exists_lam with ⟨inner, hsteps, hinner⟩
      apply Standard.of_headReduces (headReduces_function hsteps argument)
      apply Standard.head .contract
      exact hinner.instantiate hclosed ha 0
  | head hhead _ ih => exact .head hhead (ih hstep)

theorem standard_of_reduces (hclosed : ClosedBodies bodies) {term after : Nameless}
    (h : ReflTransGen (Reduces bodies) term after) : Standard bodies term after := by
  induction h with
  | refl => exact .refl term
  | tail _ hstep ih => exact ih.step hclosed hstep

theorem HeadReduces.headStep_eq {function argument after : Nameless}
    (h : HeadReduces bodies (app function argument) after)
    : (app function argument).headStep bodies = some after := by
  induction function generalizing argument after with
  | bound index =>
    cases h with
    | function h => cases h
  | free name =>
    cases h with
    | function h => cases h
  | const name =>
    cases h with
    | function h =>
      cases h with
      | unfold hbody => simp [headStep, hbody]
  | lam body _ =>
    cases h with
    | contract => rfl
    | function h => cases h
  | app inner first ih _ =>
    cases h with
    | function h => simp [headStep, ih h]

-- The end is an abstraction, or a constant that is met before it.
theorem exists_after_of_headReduces {term body : Nameless}
    (h : ReflTransGen (HeadReduces bodies) term (.lam body))
    : ∃ count last, term.after bodies count = some last ∧
        ∀ function argument, last ≠ .app function argument := by
  induction h using ReflTransGen.head_induction_on with
  | refl => exact ⟨0, .lam body, rfl, by simp⟩
  | @head term next hstep _ ih =>
    cases term with
    | app function argument =>
      rcases ih with ⟨count, last, hafter, hlast⟩
      refine ⟨count + 1, last, ?_, hlast⟩
      rw [after, hstep.headStep_eq]
      exact hafter
    | const name => exact ⟨0, .const name, rfl, by simp⟩
    | bound index => cases hstep
    | free name => cases hstep
    | lam inner => cases hstep

end Nameless

theorem Book.closedBodies_nameless (book : Book) : Nameless.ClosedBodies book.nameless := by
  intro name body h amount depth
  rcases Option.map_eq_some_iff.1 h with ⟨source, _, hsource⟩
  rw [← hsource]
  apply Term.shift_nameless
  simp

variable {book : Book}

theorem Term.reached_of_nameless {term : Term} {path : List (Option String)}
    (h : ∀ function argument, term.nameless path ≠ .app function argument)
    : Form.weakHead.reached term = true := by
  cases term with
  | app function argument => exact absurd rfl (h _ _)
  | lam binder body => rfl
  | var name => rfl
  | ref name => rfl

/--
If contractions and unfoldings at any places lead from a good term to an abstraction, then its weak-head
reduction comes to an end.
-/
theorem exists_weakHead_of_reduces {term : Term} {body : Nameless} (good : book.Good)
    (h : term.GoodIn book.names)
    (hreduces : ReflTransGen (Nameless.Reduces book.nameless) (term.nameless []) (.lam body))
    : ∃ count last, term.after book .weakHead count = .ok (some last) ∧
        Form.weakHead.reached last = true ∧
        reduce book .weakHead .normal none 0 (count + 1) term =
          some { result := .ok { term := last, stuck := false }, steps := count } := by
  have hstandard := Nameless.standard_of_reduces book.closedBodies_nameless hreduces
  rcases hstandard.exists_lam with ⟨inner, hhead, _⟩
  rcases Nameless.exists_after_of_headReduces hhead with ⟨count, image, hafter, himage⟩
  rcases Term.after_nameless good count h with ⟨other?, hother, hmap⟩
  rw [hafter] at hmap
  rcases Option.map_eq_some_iff.1 hmap with ⟨last, hsome, hlast⟩
  rw [hsome] at hother
  have hreached : Form.weakHead.reached last = true := by
    apply Term.reached_of_nameless
    rw [hlast]
    exact himage
  have hnone : term.after book .weakHead (count + 1) = .ok none := by
    rw [Term.after_add hother 1]
    simp [Term.after, hreached]
  rcases exists_reduce hother hnone .normal 0 with ⟨final, hreduce, hfinal⟩
  have hstuck : final.stuck = false := by
    rw [stuck_eq_of_reduce hreduce rfl, hfinal, hreached]
    rfl
  refine ⟨count, last, hother, hreached, ?_⟩
  rw [hreduce, Nat.zero_add, ← hfinal, ← hstuck]

theorem exists_weakHead_of_reduces_divergentArgument
    : let book := Book.ofList [{ name := "loop", body := .ref "loop" }]
      let identity := Term.lam (some "y") (.var "y")
      let term := Term.app (.app (.lam (some "x") (.lam none (.var "x"))) identity) (.ref "loop")
      book.Good ∧ term.GoodIn book.names ∧
        ReflTransGen (Nameless.Reduces book.nameless) (term.nameless []) (.lam (.bound 0)) ∧
        ∃ count last, term.after book .weakHead count = .ok (some last) ∧
          Form.weakHead.reached last = true ∧
          reduce book .weakHead .normal none 0 (count + 1) term =
            some { result := .ok { term := last, stuck := false }, steps := count } := by
  intro book identity term
  have good : book.Good := by decide
  have h : term.GoodIn book.names := by decide
  have hreduces : ReflTransGen (Nameless.Reduces book.nameless) (term.nameless []) (.lam (.bound 0)) :=
    .head (.argument (.unfold rfl)) (.head (.function .contract) (.head .contract .refl))
  exact ⟨good, h, hreduces, exists_weakHead_of_reduces good h hreduces⟩

end NamedLambda
