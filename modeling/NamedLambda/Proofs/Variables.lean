import NamedLambda.Reduction.Substitute

/-!
This module contains the free variables and the references of terms, and what substitution does to
them.
-/

namespace NamedLambda.Term

/--
The free variables of a term from left to right. An erased binder binds none of them.
-/
def freeVars : Term → List String
  | lam binder body => body.freeVars.filter (fun name => some name ≠ binder)
  | var name => [name]
  | ref _ => []
  | app function argument => function.freeVars ++ argument.freeVars

def refs : Term → List String
  | lam _ body => body.refs
  | var _ => []
  | ref name => [name]
  | app function argument => function.refs ++ argument.refs

@[simp]
theorem mem_freeVars_lam (name : String) (binder : Option String) (body : Term)
    : name ∈ (lam binder body).freeVars ↔ name ∈ body.freeVars ∧ some name ≠ binder := by
  simp [freeVars]

@[simp]
theorem mem_freeVars_var (name other : String) : name ∈ (var other).freeVars ↔ name = other := by
  simp [freeVars]

@[simp]
theorem freeVars_ref (name : String) : (ref name).freeVars = [] := by
  rfl

@[simp]
theorem freeVars_app (function argument : Term)
    : (app function argument).freeVars = function.freeVars ++ argument.freeVars := by
  rfl

@[simp]
theorem refs_lam (binder : Option String) (body : Term) : (lam binder body).refs = body.refs := by
  rfl

@[simp]
theorem refs_var (name : String) : (var name).refs = [] := by
  rfl

@[simp]
theorem refs_ref (name : String) : (ref name).refs = [name] := by
  rfl

@[simp]
theorem refs_app (function argument : Term)
    : (app function argument).refs = function.refs ++ argument.refs := by
  rfl

theorem mem_freeVars_substitute {term value : Term} {binder : Option String} {name : String}
    (h : name ∈ (term.substitute binder value).freeVars)
    : (name ∈ term.freeVars ∧ some name ≠ binder) ∨
      (name ∈ value.freeVars ∧ ∃ replaced ∈ term.freeVars, some replaced = binder) := by
  induction term with
  | lam other body ih =>
    unfold substitute at h
    split at h
    · next heq =>
      rw [mem_freeVars_lam] at h
      left
      rw [mem_freeVars_lam]
      exact ⟨h, heq ▸ h.2⟩
    · next hne =>
      rw [mem_freeVars_lam] at h
      cases ih h.1 with
      | inl hkept =>
        left
        rw [mem_freeVars_lam]
        exact ⟨⟨hkept.1, h.2⟩, hkept.2⟩
      | inr hput =>
        rcases hput with ⟨hvalue, replaced, hmem, heq⟩
        right
        refine ⟨hvalue, replaced, ?_, heq⟩
        rw [mem_freeVars_lam]
        exact ⟨hmem, fun eq => hne (eq ▸ heq)⟩
  | var other =>
    unfold substitute at h
    split at h
    · next heq => exact Or.inr ⟨h, other, by simp, heq⟩
    · next hne =>
      rw [mem_freeVars_var] at h
      subst h
      exact Or.inl ⟨by simp, hne⟩
  | ref other => simp [substitute] at h
  | app function argument ihf iha =>
    simp only [substitute, freeVars_app, List.mem_append] at h ⊢
    cases h with
    | inl h =>
      cases ihf h with
      | inl hkept => exact Or.inl ⟨Or.inl hkept.1, hkept.2⟩
      | inr hput =>
        rcases hput with ⟨hvalue, replaced, hmem, heq⟩
        exact Or.inr ⟨hvalue, replaced, Or.inl hmem, heq⟩
    | inr h =>
      cases iha h with
      | inl hkept => exact Or.inl ⟨Or.inr hkept.1, hkept.2⟩
      | inr hput =>
        rcases hput with ⟨hvalue, replaced, hmem, heq⟩
        exact Or.inr ⟨hvalue, replaced, Or.inr hmem, heq⟩

theorem mem_refs_substitute {term value : Term} {binder : Option String} {name : String}
    (h : name ∈ (term.substitute binder value).refs) : name ∈ term.refs ∨ name ∈ value.refs := by
  induction term with
  | lam other body ih =>
    unfold substitute at h
    split at h
    · exact Or.inl h
    · exact ih h
  | var other =>
    unfold substitute at h
    split at h
    · exact Or.inr h
    · simp at h
  | ref other => exact Or.inl h
  | app function argument ihf iha =>
    simp only [substitute, refs_app, List.mem_append] at h ⊢
    cases h with
    | inl h =>
      have := ihf h
      grind
    | inr h =>
      have := iha h
      grind

theorem substitute_eq_self {term : Term} {binder : Option String}
    (h : ∀ name ∈ term.freeVars, some name ≠ binder) (value : Term)
    : term.substitute binder value = term := by
  induction term with
  | lam other body ih =>
    unfold substitute
    split
    · rfl
    · next hne =>
      rw [ih]
      intro name hname heq
      apply h name
      · rw [mem_freeVars_lam]
        exact ⟨hname, fun hother => hne (hother.symm.trans heq)⟩
      · exact heq
  | var other =>
    have := h other (by simp)
    simp [substitute, this]
  | ref other => rfl
  | app function argument ihf iha =>
    rw [freeVars_app, List.forall_mem_append] at h
    rw [substitute, ihf h.1, iha h.2]

end NamedLambda.Term
