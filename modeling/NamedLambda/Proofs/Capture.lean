import NamedLambda.Proofs.Nameless

/-!
This module contains the captures of substitution without renaming: free variables of the substituted
term that come below an abstraction of their own name. Substitution is translated to the one of nameless
terms, which avoids capture, exactly if there are none.
-/

namespace NamedLambda

/--
Put `value` in the place of the free variable `name`. What is bound outside of the whole term is moved
past every abstraction on the way.
-/
def Nameless.substitute (term : Nameless) (name : String) (value : Nameless) : Nameless :=
  match term with
  | bound index => bound index
  | free other => if other = name then value else free other
  | const other => const other
  | lam body => lam (body.substitute name (value.shift 1 0))
  | app function argument => app (function.substitute name value) (argument.substitute name value)

namespace Term

/--
The paths of binders, innermost first, to the free occurrences of a variable in a term below `path`.
-/
def occurrences (name : String) : (path : List (Option String)) → Term → List (List (Option String))
  | path, lam binder body =>
    if binder = some name then [] else body.occurrences name (binder :: path)
  | path, var other => if other = name then [path] else []
  | _, ref _ => []
  | path, app function argument => function.occurrences name path ++ argument.occurrences name path

/--
Some free occurrence of `name` is below a binder that is a free variable of `value`.
-/
def Captures (term : Term) (name : String) (value : Term) : Prop :=
  ∃ path ∈ term.occurrences name [], ∃ captured ∈ value.freeVars, some captured ∈ path

instance (term : Term) (name : String) (value : Term) : Decidable (term.Captures name value) :=
  inferInstanceAs (Decidable
    (∃ path ∈ term.occurrences name [], ∃ captured ∈ value.freeVars, some captured ∈ path))

-- A variable that is bound on the path does not stay free.
theorem substitute_nameless_of_mem (term : Term) {name : String} {path : List (Option String)}
    (h : some name ∈ path) (value : Nameless)
    : (term.nameless path).substitute name value = term.nameless path := by
  induction term generalizing path value with
  | lam binder body ih =>
    simp only [nameless, Nameless.substitute, Nameless.lam.injEq]
    apply ih
    exact List.mem_cons_of_mem binder h
  | var other =>
    simp only [nameless]
    split
    · rfl
    · next hnone =>
      have hne : other ≠ name := by
        intro heq
        rw [List.idxOf?_eq_none_iff, heq] at hnone
        exact hnone h
      simp [Nameless.substitute, hne]
  | ref other => rfl
  | app function argument ihf iha =>
    simp only [nameless, Nameless.substitute]
    rw [ihf h, iha h]

-- At an occurrence the value is translated along the path, and stays what it is outside of all
-- abstractions if none of its free variables is on that path.
theorem nameless_substitute_iff (term value : Term) {name : String} {path : List (Option String)}
    (h : some name ∉ path)
    : (term.substitute (some name) value).nameless path =
        (term.nameless path).substitute name (value.nameless []) ↔
      ∀ place ∈ term.occurrences name path, ∀ captured ∈ value.freeVars, some captured ∉ place := by
  induction term generalizing path with
  | lam binder body ih =>
    have hshift : (value.nameless []).shift 1 0 = value.nameless [] := by
      apply shift_nameless
      exact Nat.le_refl 0
    by_cases heq : binder = some name
    · have hbody : (body.nameless (some name :: path)).substitute name (value.nameless []) =
          body.nameless (some name :: path) := by
        apply substitute_nameless_of_mem
        exact List.mem_cons_self
      simp [substitute, occurrences, heq, nameless, Nameless.substitute, hbody, hshift]
    · have hpath : some name ∉ binder :: path := by
        simp [h, Ne.symm heq]
      simp only [substitute, occurrences, heq, if_false, nameless, Nameless.substitute,
        Nameless.lam.injEq, hshift]
      exact ih hpath
  | var other =>
    by_cases heq : other = name
    · subst heq
      have hvalue := nameless_append_eq_iff value [] path
      simp only [List.nil_append, List.not_mem_nil, imp_false] at hvalue
      simp [substitute, occurrences, nameless, List.idxOf?_eq_none_iff.2 h, Nameless.substitute, hvalue]
    · simp only [substitute, occurrences, heq, Option.some.injEq, if_false, nameless]
      split
      · simp [Nameless.substitute]
      · simp [Nameless.substitute, heq]
  | ref other => simp [substitute, occurrences, nameless, Nameless.substitute]
  | app function argument ihf iha =>
    simp only [substitute, occurrences, nameless, Nameless.substitute, Nameless.app.injEq, ihf h, iha h,
      List.forall_mem_append]

/--
Substitution is the one that avoids capture exactly if nothing is captured. In any case it adds no free
variable but those of the value, where there is an occurrence to replace, and it changes nothing where
there is none.
-/
theorem substitute_eq_nameless_iff_not_captures (term value : Term) (name : String)
    : ((term.substitute (some name) value).nameless [] =
          (term.nameless []).substitute name (value.nameless []) ↔
        ¬term.Captures name value) ∧
      (∀ other ∈ (term.substitute (some name) value).freeVars,
        (other ∈ term.freeVars ∧ other ≠ name) ∨ (other ∈ value.freeVars ∧ name ∈ term.freeVars)) ∧
      (name ∉ term.freeVars → term.substitute (some name) value = term) := by
  refine ⟨?_, ?_, ?_⟩
  · rw [nameless_substitute_iff term value List.not_mem_nil]
    simp [Captures]
  · intro other hother
    cases mem_freeVars_substitute hother with
    | inl hkept => exact Or.inl ⟨hkept.1, fun heq => hkept.2 (congrArg some heq)⟩
    | inr hput =>
      rcases hput with ⟨hvalue, replaced, hmem, heq⟩
      rw [Option.some.injEq] at heq
      exact Or.inr ⟨hvalue, heq ▸ hmem⟩
  · intro hfree
    apply substitute_eq_self
    intro other hother heq
    rw [Option.some.injEq] at heq
    exact hfree (heq ▸ hother)

theorem substitute_eq_nameless_iff_not_captures_shadowed
    : let term := lam (some "y") (app (var "x") (lam (some "x") (var "x")))
      let value := app (var "x") (var "z")
      (¬term.Captures "x" value ∧
        (term.substitute (some "x") value).nameless [] =
          (term.nameless []).substitute "x" (value.nameless [])) ∧
      (term.Captures "x" (var "y") ∧
        (term.substitute (some "x") (var "y")).nameless [] ≠
          (term.nameless []).substitute "x" ((var "y").nameless [])) := by
  intro term value
  have hkept : ¬term.Captures "x" value := by decide
  have hcaptured : term.Captures "x" (var "y") := by decide
  refine ⟨⟨hkept, ?_⟩, ⟨hcaptured, ?_⟩⟩
  · exact (substitute_eq_nameless_iff_not_captures term value "x").1.2 hkept
  · intro heq
    exact (substitute_eq_nameless_iff_not_captures term (var "y") "x").1.1 heq hcaptured

end Term

end NamedLambda
