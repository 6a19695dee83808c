import NamedLambda.Book
import NamedLambda.Proofs.Variables

/-!
This module contains nameless terms, in which a bound variable is the number of abstractions between it
and its own, and their weak-head reduction with substitution that avoids capture. A term is translated
along the path of binders above it. On a closed argument, substitution without renaming is translated to
the one that avoids capture.
-/

namespace NamedLambda

/--
A nameless term. References are constants, and variables that nothing binds keep their names.
-/
inductive Nameless where
  | bound (index : Nat)
  | free (name : String)
  | const (name : String)
  | lam (body : Nameless)
  | app (function argument : Nameless)
  deriving DecidableEq, Repr, Inhabited

namespace Nameless

/--
Make room for `amount` abstractions around a term, of which the innermost `depth` ones around a place
are part of the term.
-/
def shift (amount depth : Nat) : Nameless → Nameless
  | bound index => if index < depth then bound index else bound (index + amount)
  | free name => free name
  | const name => const name
  | lam body => lam (body.shift amount (depth + 1))
  | app function argument => app (function.shift amount depth) (argument.shift amount depth)

/--
Put `value` in the place of the variable of the abstraction around the innermost `depth` ones, and take
that abstraction away.
-/
def instantiate (term value : Nameless) (depth : Nat) : Nameless :=
  match term with
  | bound index =>
    if index < depth then bound index
    else if index = depth then value.shift depth 0
    else bound (index - 1)
  | free name => free name
  | const name => const name
  | lam body => lam (body.instantiate value (depth + 1))
  | app function argument => app (function.instantiate value depth) (argument.instantiate value depth)

/--
One step of weak-head reduction: contract the head redex, or unfold a constant in head position. There is
none if the outermost node is not an application.
-/
def headStep (bodies : String → Option Nameless) : Nameless → Option Nameless
  | app (lam body) argument => some (body.instantiate argument 0)
  | app (const name) argument => (bodies name).map (app · argument)
  | app (app function first) argument =>
    ((app function first).headStep bodies).map (app · argument)
  | _ => none

def after (bodies : String → Option Nameless) : (count : Nat) → Nameless → Option Nameless
  | 0, term => some term
  | count + 1, term => (term.headStep bodies).bind (after bodies count)

end Nameless

namespace Term

/--
The nameless form of a term below `path`. An erased binder is one that no variable refers to.
-/
def nameless : (path : List (Option String)) → Term → Nameless
  | path, lam binder body => .lam (body.nameless (binder :: path))
  | path, var name =>
    match path.idxOf? (some name) with
    | some index => .bound index
    | none => .free name
  | _, ref name => .const name
  | path, app function argument => .app (function.nameless path) (argument.nameless path)

theorem idxOf?_append_of_mem {binder : Option String} {path : List (Option String)}
    (h : binder ∈ path) (outer : List (Option String))
    : (path ++ outer).idxOf? binder = path.idxOf? binder := by
  have hsome := List.isSome_idxOf?.2 h
  unfold List.idxOf? at hsome ⊢
  rw [List.findIdx?_append]
  cases hindex : path.findIdx? (fun other => other == binder) with
  | none => simp [hindex] at hsome
  | some index => rfl

theorem idxOf?_append_of_not_mem {binder : Option String} {path : List (Option String)}
    (h : binder ∉ path) (outer : List (Option String))
    : (path ++ outer).idxOf? binder = (outer.idxOf? binder).map (· + path.length) := by
  have hnone := List.idxOf?_eq_none_iff.2 h
  unfold List.idxOf? at hnone ⊢
  rw [List.findIdx?_append, hnone]
  rfl

theorem nameless_append_eq_iff (term : Term) (path outer : List (Option String))
    : term.nameless (path ++ outer) = term.nameless path ↔
      ∀ name ∈ term.freeVars, some name ∈ outer → some name ∈ path := by
  induction term generalizing path with
  | lam binder body ih =>
    simp only [nameless, Nameless.lam.injEq, ← List.cons_append, ih, mem_freeVars_lam, List.mem_cons]
    constructor
    · intro h name hname houter
      cases h name hname.1 houter with
      | inl heq => exact absurd heq hname.2
      | inr hmem => exact hmem
    · intro h name hname houter
      by_cases heq : some name = binder
      · exact Or.inl heq
      · exact Or.inr (h name ⟨hname, heq⟩ houter)
  | var name =>
    simp only [nameless, mem_freeVars_var, forall_eq]
    by_cases hmem : some name ∈ path
    · simp [idxOf?_append_of_mem hmem, hmem]
    · rw [idxOf?_append_of_not_mem hmem, List.idxOf?_eq_none_iff.2 hmem]
      cases hindex : outer.idxOf? (some name) with
      | none => simp [List.idxOf?_eq_none_iff.1 hindex]
      | some index =>
        have houter : some name ∈ outer := by
          rw [← List.isSome_idxOf?, hindex]
          rfl
        simp [houter, hmem]
  | ref name => simp [nameless]
  | app function argument ihf iha =>
    simp only [nameless, Nameless.app.injEq, ihf, iha, freeVars_app, List.forall_mem_append]

theorem nameless_of_closed {term : Term} (h : term.freeVars = []) (path : List (Option String))
    : term.nameless path = term.nameless [] := by
  apply (nameless_append_eq_iff term [] path).2
  simp [h]

theorem shift_nameless (term : Term) {path : List (Option String)} {depth : Nat}
    (h : path.length ≤ depth) (amount : Nat)
    : (term.nameless path).shift amount depth = term.nameless path := by
  induction term generalizing path depth with
  | lam binder body ih =>
    simp only [nameless, Nameless.shift, Nameless.lam.injEq]
    apply ih
    rw [List.length_cons]
    omega
  | var name =>
    simp only [nameless]
    cases hindex : path.idxOf? (some name) with
    | none => rfl
    | some index =>
      rcases List.idxOf?_eq_some_iff.1 hindex with ⟨hlt, _⟩
      simp only [Nameless.shift]
      rw [if_pos (by omega)]
  | ref name => rfl
  | app function argument ihf iha =>
    simp only [nameless, Nameless.shift]
    rw [ihf h, iha h]

-- Below a binder of the same name there is nothing to replace, neither with names nor without.
theorem instantiate_nameless (body : Term) {value : Term} (hvalue : value.freeVars = [])
    (binder : Option String) (path : List (Option String))
    : (body.nameless (path ++ [binder])).instantiate (value.nameless []) path.length =
      (if binder ∈ path then body else body.substitute binder value).nameless path := by
  induction body generalizing path with
  | lam other body ih =>
    have ih := ih (other :: path)
    simp only [List.cons_append, List.length_cons] at ih
    simp only [nameless, Nameless.instantiate, ih, substitute]
    by_cases hmem : binder ∈ path
    · simp [hmem, nameless]
    · by_cases heq : other = binder
      · simp [hmem, heq, nameless]
      · simp [hmem, heq, Ne.symm heq, nameless]
  | var name =>
    by_cases hmem : some name ∈ path
    · rw [nameless, idxOf?_append_of_mem hmem]
      have hkept : (if binder ∈ path then var name else (var name).substitute binder value) =
          var name := by
        split
        · rfl
        · next hnot =>
          have hne : some name ≠ binder := fun heq => hnot (heq ▸ hmem)
          simp [substitute, hne]
      rw [hkept, nameless]
      cases hindex : path.idxOf? (some name) with
      | none => rfl
      | some index =>
        rcases List.idxOf?_eq_some_iff.1 hindex with ⟨hlt, _⟩
        simp only [Nameless.instantiate]
        rw [if_pos hlt]
    · rw [nameless, idxOf?_append_of_not_mem hmem]
      by_cases heq : some name = binder
      · subst heq
        simp only [hmem, if_false, substitute, if_true, List.idxOf?_singleton, beq_self_eq_true,
          Option.map_some, Nat.zero_add, Nameless.instantiate, Nat.lt_irrefl]
        rw [shift_nameless value (by simp), nameless_of_closed hvalue path]
      · have hkept : (if binder ∈ path then var name else (var name).substitute binder value) =
            var name := by
          simp [substitute, heq]
        have hnone : ([binder] : List (Option String)).idxOf? (some name) = none := by
          simp [Ne.symm heq]
        rw [hkept, hnone, nameless, List.idxOf?_eq_none_iff.2 hmem]
        rfl
  | ref name =>
    simp only [nameless, Nameless.instantiate, substitute, ite_self]
  | app function argument ihf iha =>
    simp only [nameless, Nameless.instantiate, ihf, iha, substitute]
    split <;> rfl

theorem substitute_none (term value : Term) : term.substitute none value = term := by
  apply substitute_eq_self
  simp

end Term

def Book.nameless (book : Book) (name : String) : Option Nameless :=
  (book.find? name).map (Term.nameless [])

end NamedLambda
