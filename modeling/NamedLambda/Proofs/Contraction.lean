import NamedLambda.Reduction.Step
import NamedLambda.Proofs.GoodBook

/-!
This module contains what a single step can do to a term, as a relation. A step adds no free variable
and no unknown reference, even where substitution captures variables, and only a missing definition can
keep it from being made.
-/

namespace NamedLambda.Term

/--
One step leads from a term to another one. The argument of an application is only reached if nothing is
left to reduce in its function.
-/
inductive Contracts (book : Book) : Term → Term → Prop where
  | body {binder : Option String} {body after : Term} (h : Contracts book body after)
    : Contracts book (lam binder body) (lam binder after)
  | unfold {name : String} {body : Term} (h : book.find? name = some body)
    : Contracts book (ref name) body
  | erase {body argument : Term} : Contracts book (app (lam none body) argument) body
  | apply {name : String} {body argument : Term}
    : Contracts book (app (lam (some name) body) argument) (body.substitute (some name) argument)
  | unfoldHead {name : String} {body argument : Term} (h : book.find? name = some body)
    : Contracts book (app (ref name) argument) (app body argument)
  | function {function first argument after : Term} (h : Contracts book (app function first) after)
    : Contracts book (app (app function first) argument) (app after argument)
  | argument {function first argument after : Term}
    (stuck : (app function first).step book = .ok { term := app function first, reduced := false })
    (h : Contracts book argument after)
    : Contracts book (app (app function first) argument) (app (app function first) after)

variable {book : Book}

theorem find?_of_unfold {name : String} {body : Term} (h : book.unfold name = .ok body)
    : book.find? name = some body := by
  unfold Book.unfold at h
  cases hfind : book.find? name with
  | none => simp [hfind] at h
  | some found =>
    simp only [hfind, Except.ok.injEq] at h
    rw [h]

-- The second half is needed along with the first one: the argument of an application is only reduced
-- if the step in its function left that as it was.
theorem contracts_of_step {term : Term} {progress : Progress} (h : term.step book = .ok progress)
    : (progress.reduced = true → Contracts book term progress.term) ∧
      (progress.reduced = false → progress.term = term) := by
  fun_induction Term.step book term generalizing progress with
  | case1 binder body ih =>
    cases hbody : body.step book with
    | error fault => simp [hbody, bind, Except.bind] at h
    | ok inner =>
      simp only [hbody, bind, Except.bind, pure, Except.pure, Except.ok.injEq] at h
      subst h
      constructor
      · intro hreduced
        exact .body ((ih hbody).1 hreduced)
      · intro hstuck
        rw [(ih hbody).2 hstuck]
  | case2 name =>
    simp only [pure, Except.pure, Except.ok.injEq] at h
    subst h
    simp
  | case3 name =>
    cases hunfold : book.unfold name with
    | error fault => simp [hunfold, bind, Except.bind] at h
    | ok body =>
      simp only [hunfold, bind, Except.bind, pure, Except.pure, Except.ok.injEq] at h
      subst h
      simpa using Contracts.unfold (find?_of_unfold hunfold)
  | case4 body argument =>
    simp only [pure, Except.pure, Except.ok.injEq] at h
    subst h
    simpa using Contracts.erase
  | case5 name body argument =>
    simp only [pure, Except.pure, Except.ok.injEq] at h
    subst h
    simpa using Contracts.apply
  | case6 name argument =>
    simp only [pure, Except.pure, Except.ok.injEq] at h
    subst h
    simp
  | case7 name argument =>
    cases hunfold : book.unfold name with
    | error fault => simp [hunfold, bind, Except.bind] at h
    | ok body =>
      simp only [hunfold, bind, Except.bind, pure, Except.pure, Except.ok.injEq] at h
      subst h
      simpa using Contracts.unfoldHead (find?_of_unfold hunfold)
  | case8 function first argument ihf iha =>
    cases hfunction : (app function first).step book with
    | error fault => simp [hfunction, bind, Except.bind] at h
    | ok head =>
      simp only [hfunction, bind, Except.bind] at h
      cases hhead : head.reduced with
      | true =>
        simp only [hhead, if_true, pure, Except.pure, Except.ok.injEq] at h
        subst h
        simpa using Contracts.function ((ihf hfunction).1 hhead)
      | false =>
        have hsame := (ihf hfunction).2 hhead
        have hstuck : (app function first).step book =
            .ok { term := app function first, reduced := false } := by
          rw [hfunction, ← hsame, ← hhead]
        cases hargument : argument.step book with
        | error fault => simp [hhead, hargument] at h
        | ok rest =>
          simp only [hhead, Bool.false_eq_true, if_false, hargument, pure, Except.pure,
            Except.ok.injEq] at h
          subst h
          rw [hsame]
          constructor
          · intro hreduced
            exact .argument hstuck ((iha hargument).1 hreduced)
          · intro hrest
            rw [(iha hargument).2 hrest]

theorem Contracts.mem_freeVars {term after : Term} (h : Contracts book term after)
    (good : book.Good) {name : String} (hname : name ∈ after.freeVars) : name ∈ term.freeVars := by
  induction h with
  | body _ ih =>
    rw [mem_freeVars_lam] at hname ⊢
    exact ⟨ih hname.1, hname.2⟩
  | unfold hfind => simp [(good.of_find? hfind).closed] at hname
  | erase => simp [hname]
  | apply =>
    rw [freeVars_app, List.mem_append, mem_freeVars_lam]
    cases mem_freeVars_substitute hname with
    | inl hkept => exact Or.inl hkept
    | inr hput => exact Or.inr hput.1
  | unfoldHead hfind => simpa [(good.of_find? hfind).closed] using hname
  | function _ ih =>
    rw [freeVars_app, List.mem_append] at hname ⊢
    cases hname with
    | inl hfunction => exact Or.inl (ih hfunction)
    | inr hargument => exact Or.inr hargument
  | argument _ _ ih =>
    rw [freeVars_app, List.mem_append] at hname ⊢
    cases hname with
    | inl hfunction => exact Or.inl hfunction
    | inr hargument => exact Or.inr (ih hargument)

theorem Contracts.mem_refs {term after : Term} (h : Contracts book term after)
    (good : book.Good) {name : String} (hname : name ∈ after.refs)
    : name ∈ term.refs ∨ name ∈ book.names := by
  induction h with
  | body _ ih => exact ih hname
  | unfold hfind => exact Or.inr ((good.of_find? hfind).refs_mem name hname)
  | erase => exact Or.inl (by simp [hname])
  | apply =>
    rw [refs_app, List.mem_append, refs_lam]
    exact Or.inl (mem_refs_substitute hname)
  | unfoldHead hfind =>
    rw [refs_app, List.mem_append] at hname ⊢
    cases hname with
    | inl hbody => exact Or.inr ((good.of_find? hfind).refs_mem name hbody)
    | inr hargument => exact Or.inl (Or.inr hargument)
  | function _ ih =>
    rw [refs_app, List.mem_append] at hname ⊢
    cases hname with
    | inl hfunction =>
      cases ih hfunction with
      | inl hold => exact Or.inl (Or.inl hold)
      | inr hnew => exact Or.inr hnew
    | inr hargument => exact Or.inl (Or.inr hargument)
  | argument _ _ ih =>
    rw [refs_app, List.mem_append] at hname ⊢
    cases hname with
    | inl hfunction => exact Or.inl (Or.inl hfunction)
    | inr hargument =>
      cases ih hargument with
      | inl hold => exact Or.inl (Or.inr hold)
      | inr hnew => exact Or.inr hnew

theorem Contracts.goodIn {term after : Term} (h : Contracts book term after) (good : book.Good)
    (hgood : term.GoodIn book.names) : after.GoodIn book.names where
  closed := by
    rw [List.eq_nil_iff_forall_not_mem]
    intro name hname
    have := h.mem_freeVars good hname
    simp [hgood.closed] at this
  refs_mem := by
    intro name hname
    cases h.mem_refs good hname with
    | inl hold => exact hgood.refs_mem name hold
    | inr hnew => exact hnew

theorem exists_unfold {name : String} (h : name ∈ book.names) : ∃ body, book.unfold name = .ok body := by
  rcases Book.exists_find? h with ⟨body, hfind⟩
  exact ⟨body, by simp [Book.unfold, hfind]⟩

theorem exists_step {term : Term} (hrefs : ∀ name ∈ term.refs, name ∈ book.names)
    : ∃ progress, term.step book = .ok progress := by
  fun_induction Term.step book term with
  | case1 binder body ih =>
    rcases ih hrefs with ⟨inner, hbody⟩
    simp [hbody, bind, Except.bind, pure, Except.pure]
  | case2 name => exact ⟨_, rfl⟩
  | case3 name =>
    rcases exists_unfold (hrefs name (by simp)) with ⟨body, hunfold⟩
    simp [hunfold, bind, Except.bind, pure, Except.pure]
  | case4 body argument => exact ⟨_, rfl⟩
  | case5 name body argument => exact ⟨_, rfl⟩
  | case6 name argument => exact ⟨_, rfl⟩
  | case7 name argument =>
    rcases exists_unfold (hrefs name (by simp)) with ⟨body, hunfold⟩
    simp [hunfold, bind, Except.bind, pure, Except.pure]
  | case8 function first argument ihf iha =>
    rw [refs_app, List.forall_mem_append] at hrefs
    rcases ihf hrefs.1 with ⟨head, hfunction⟩
    rcases iha hrefs.2 with ⟨rest, hargument⟩
    simp only [hfunction, hargument, bind, Except.bind, pure, Except.pure]
    split
    · exact ⟨_, rfl⟩
    · exact ⟨_, rfl⟩

end NamedLambda.Term
