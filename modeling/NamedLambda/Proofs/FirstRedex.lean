import NamedLambda.Proofs.Contraction
import NamedLambda.Proofs.Positions

/-!
This module contains the positions of a term that normal order looks at. A step contracts the first redex
among them, from the outside to the inside and from left to right, and nothing else. If that redex is a
reference without a definition the step fails.
-/

namespace NamedLambda

namespace Term

/--
The parts of a term that are reduced inside of it.
-/
inductive Opens : Term → Direction → Term → Prop where
  | body (binder : Option String) (body : Term) : Opens (lam binder body) .body body
  | functionApp (function first argument : Term)
    : Opens (app (app function first) argument) .function (app function first)
  | functionRef (name : String) (argument : Term) : Opens (app (ref name) argument) .function (ref name)
  | argument (function first argument : Term)
    : Opens (app (app function first) argument) .argument argument

/--
The reachable positions of a term, and the subterms there.
-/
inductive Reaches (term : Term) : List Direction → Term → Prop where
  | root : Reaches term [] term
  | child {position : List Direction} {direction : Direction} {subterm child : Term}
    (h : Reaches term position subterm) (hopens : Opens subterm direction child)
    : Reaches term (position ++ [direction]) child

inductive IsRedex : Term → Prop where
  | application (binder : Option String) (body argument : Term)
    : IsRedex (app (lam binder body) argument)
  | reference (name : String) : IsRedex (ref name)

def contractum? (book : Book) : Term → Option Term
  | app (lam (some name) body) argument => some (body.substitute (some name) argument)
  | app (lam none body) _ => some body
  | ref name => book.find? name
  | _ => none

def replaceAt : Term → List Direction → Term → Term
  | _, [], new => new
  | lam binder body, .body :: position, new => lam binder (body.replaceAt position new)
  | app function argument, .function :: position, new => app (function.replaceAt position new) argument
  | app function argument, .argument :: position, new => app function (argument.replaceAt position new)
  | term, _ :: _, _ => term

structure FirstRedex (term : Term) (position : List Direction) (redex : Term) : Prop where
  reaches : Reaches term position redex
  isRedex : redex.IsRedex
  before : ∀ other subterm, Reaches term other subterm → subterm.IsRedex →
    other = position ∨ Before position other

def NoRedex (term : Term) : Prop :=
  ∀ position subterm, Reaches term position subterm → ¬subterm.IsRedex

theorem Opens.unique {term child other : Term} {direction : Direction}
    (h : Opens term direction child) (h' : Opens term direction other) : other = child := by
  cases h with
  | body binder body =>
    cases h'
    rfl
  | functionApp function first argument =>
    cases h'
    rfl
  | functionRef name argument =>
    cases h'
    rfl
  | argument function first argument =>
    cases h'
    rfl

theorem Reaches.of_opens {term child subterm : Term} {direction : Direction}
    {position : List Direction} (hopens : Opens term direction child)
    (h : Reaches child position subterm) : Reaches term (direction :: position) subterm := by
  induction h with
  | root => exact .child .root hopens
  | child _ hinner ih => exact .child ih hinner

-- Positions grow at their inner end, but steps go into a term from its root.
theorem Reaches.cases_root {term subterm : Term} {position : List Direction}
    (h : Reaches term position subterm)
    : (position = [] ∧ subterm = term) ∨
      ∃ direction child rest, position = direction :: rest ∧ Opens term direction child ∧
        Reaches child rest subterm := by
  induction h with
  | root => exact Or.inl ⟨rfl, rfl⟩
  | @child position direction subterm child _ hopens ih =>
    rcases ih with ⟨hposition, hsubterm⟩ | ⟨outer, first, rest, hposition, houter, hrest⟩
    · rw [hsubterm] at hopens
      exact Or.inr ⟨direction, child, [], by rw [hposition]; rfl, hopens, .root⟩
    · exact Or.inr ⟨outer, first, rest ++ [direction], by rw [hposition]; rfl, houter,
        .child hrest hopens⟩

theorem Reaches.unique {term subterm other : Term} {position : List Direction}
    (h : Reaches term position subterm) (h' : Reaches term position other) : other = subterm := by
  induction position generalizing term with
  | nil =>
    rcases h.cases_root with ⟨_, hsubterm⟩ | ⟨_, _, _, hposition, _⟩
    · rcases h'.cases_root with ⟨_, hother⟩ | ⟨_, _, _, hposition, _⟩
      · rw [hsubterm, hother]
      · simp at hposition
    · simp at hposition
  | cons direction rest ih =>
    rcases h.cases_root with ⟨hposition, _⟩ | ⟨_, child, _, hposition, hopens, hrest⟩
    · simp at hposition
    · rcases h'.cases_root with ⟨hposition', _⟩ | ⟨_, child', _, hposition', hopens', hrest'⟩
      · simp at hposition'
      · rw [List.cons.injEq] at hposition hposition'
        rw [← hposition.1] at hopens
        rw [← hposition'.1] at hopens'
        rw [← hposition.2] at hrest
        rw [← hposition'.2, hopens.unique hopens'] at hrest'
        exact ih hrest hrest'

theorem FirstRedex.unique {term redex redex' : Term} {position position' : List Direction}
    (h : FirstRedex term position redex) (h' : FirstRedex term position' redex')
    : position' = position ∧ redex' = redex := by
  have heq : position' = position := by
    cases h.before position' redex' h'.reaches h'.isRedex with
    | inl heq => exact heq
    | inr hbefore =>
      cases h'.before position redex h.reaches h.isRedex with
      | inl heq => exact heq.symm
      | inr hbefore' => exact absurd hbefore' hbefore.asymm
  subst heq
  exact ⟨rfl, h.reaches.unique h'.reaches⟩

theorem noRedex_of_opens {term : Term} (hroot : ¬term.IsRedex)
    (hchildren : ∀ direction child, Opens term direction child → child.NoRedex) : term.NoRedex := by
  intro position subterm h
  rcases h.cases_root with ⟨_, hsubterm⟩ | ⟨direction, child, rest, _, hopens, hrest⟩
  · rw [hsubterm]
    exact hroot
  · exact hchildren direction child hopens rest subterm hrest

theorem FirstRedex.of_opens {term child redex : Term} {direction : Direction}
    {position : List Direction} (hroot : ¬term.IsRedex) (hopens : Opens term direction child)
    (h : FirstRedex child position redex)
    (hothers : ∀ other sibling, Opens term other sibling →
      other = direction ∨ (direction = .function ∧ other = .argument) ∨ sibling.NoRedex)
    : FirstRedex term (direction :: position) redex where
  reaches := h.reaches.of_opens hopens
  isRedex := h.isRedex
  before := by
    intro place subterm hreaches hredex
    rcases hreaches.cases_root with ⟨_, hsubterm⟩ | ⟨other, sibling, rest, hplace, hsibling, hrest⟩
    · rw [hsubterm] at hredex
      exact absurd hredex hroot
    · rw [hplace]
      rcases hothers other sibling hsibling with heq | ⟨hfunction, hargument⟩ | hnone
      · subst heq
        rw [hopens.unique hsibling] at hrest
        exact Before.eq_or_cons other (h.before rest subterm hrest hredex)
      · rw [hfunction, hargument]
        exact Or.inr (.left position rest)
      · exact absurd hredex (hnone rest subterm hrest)

theorem firstRedex_root {term : Term} (h : term.IsRedex) : FirstRedex term [] term where
  reaches := .root
  isRedex := h
  before := by
    intro other subterm _ _
    cases other with
    | nil => exact Or.inl rfl
    | cons direction rest => exact Or.inr (.outer direction rest)

variable {book : Book}

inductive Tried (book : Book) (term : Term) : Prop where
  | contracted (position : List Direction) (redex contractum : Term)
    (hfirst : FirstRedex term position redex) (hcontractum : redex.contractum? book = some contractum)
    (hstep : term.step book = .ok { term := term.replaceAt position contractum, reduced := true })
  | stuck (hnone : term.NoRedex) (hstep : term.step book = .ok { term, reduced := false })
  | missing (position : List Direction) (name : String) (hfirst : FirstRedex term position (ref name))
    (hname : name ∉ book.names) (hstep : term.step book = .error (.missingKey name))

theorem tried_body {binder : Option String} {body : Term} (h : Tried book body)
    : Tried book (lam binder body) := by
  have hroot : ¬(lam binder body).IsRedex := by
    intro h
    cases h
  have hothers : ∀ other sibling, Opens (lam binder body) other sibling →
      other = .body ∨ (Direction.body = .function ∧ other = .argument) ∨ sibling.NoRedex := by
    intro other sibling hopens
    cases hopens
    exact Or.inl rfl
  cases h with
  | contracted position redex contractum hfirst hcontractum hstep =>
    refine .contracted (.body :: position) redex contractum ?_ hcontractum ?_
    · exact hfirst.of_opens hroot (.body binder body) hothers
    · simp [step, hstep, bind, Except.bind, pure, Except.pure, replaceAt]
  | stuck hnone hstep =>
    refine .stuck ?_ ?_
    · apply noRedex_of_opens hroot
      intro direction child hopens
      cases hopens
      exact hnone
    · simp [step, hstep, bind, Except.bind, pure, Except.pure]
  | missing position name hfirst hname hstep =>
    refine .missing (.body :: position) name ?_ hname ?_
    · exact hfirst.of_opens hroot (.body binder body) hothers
    · simp [step, hstep, bind, Except.bind]

theorem tried_reference (name : String) : Tried book (ref name) := by
  cases hfind : book.find? name with
  | some body =>
    refine .contracted [] (ref name) body (firstRedex_root (.reference name)) hfind ?_
    simp [step, Book.unfold, hfind, bind, Except.bind, pure, Except.pure, replaceAt]
  | none =>
    refine .missing [] name (firstRedex_root (.reference name)) ?_ ?_
    · exact (Book.find?_eq_none_iff book name).1 hfind
    · simp [step, Book.unfold, hfind, bind, Except.bind]

theorem tried_head (name : String) (argument : Term) : Tried book (app (ref name) argument) := by
  have hfirst : FirstRedex (app (ref name) argument) [.function] (ref name) := by
    apply (firstRedex_root (.reference name)).of_opens _ (.functionRef name argument)
    · intro other sibling hopens
      cases hopens
      exact Or.inl rfl
    · intro h
      cases h
  cases hfind : book.find? name with
  | some body =>
    refine .contracted [.function] (ref name) body hfirst hfind ?_
    simp [step, Book.unfold, hfind, bind, Except.bind, pure, Except.pure, replaceAt]
  | none =>
    refine .missing [.function] name hfirst ?_ ?_
    · exact (Book.find?_eq_none_iff book name).1 hfind
    · simp [step, Book.unfold, hfind, bind, Except.bind]

theorem FirstRedex.of_function {function first argument redex : Term} {position : List Direction}
    (h : FirstRedex (app function first) position redex)
    : FirstRedex (app (app function first) argument) (.function :: position) redex := by
  apply h.of_opens _ (.functionApp function first argument)
  · intro other sibling hopens
    cases hopens with
    | functionApp => exact Or.inl rfl
    | argument => exact Or.inr (Or.inl ⟨rfl, rfl⟩)
  · intro h
    cases h

theorem FirstRedex.of_argument {function first argument redex : Term} {position : List Direction}
    (hnone : (app function first).NoRedex) (h : FirstRedex argument position redex)
    : FirstRedex (app (app function first) argument) (.argument :: position) redex := by
  apply h.of_opens _ (.argument function first argument)
  · intro other sibling hopens
    cases hopens with
    | functionApp => exact Or.inr (Or.inr hnone)
    | argument => exact Or.inl rfl
  · intro h
    cases h

theorem noRedex_app {function first argument : Term} (hf : (app function first).NoRedex)
    (ha : argument.NoRedex) : (app (app function first) argument).NoRedex := by
  apply noRedex_of_opens
  · intro h
    cases h
  · intro direction child hopens
    cases hopens with
    | functionApp => exact hf
    | argument => exact ha

-- What follows a step in the function of an application depends on whether there was a redex.
theorem tried_spine {function first argument : Term} (hf : Tried book (app function first))
    (ha : Tried book argument) : Tried book (app (app function first) argument) := by
  cases hf with
  | contracted position redex contractum hfirst hcontractum hstep =>
    refine .contracted (.function :: position) redex contractum hfirst.of_function hcontractum ?_
    rw [step, hstep]
    rfl
  | missing position name hfirst hname hstep =>
    refine .missing (.function :: position) name hfirst.of_function hname ?_
    rw [step, hstep]
    rfl
  | stuck hnone hstep =>
    cases ha with
    | contracted position redex contractum hfirst hcontractum hstep' =>
      refine .contracted (.argument :: position) redex contractum ?_ hcontractum ?_
      · exact hfirst.of_argument hnone
      · rw [step, hstep, hstep']
        rfl
    | missing position name hfirst hname hstep' =>
      refine .missing (.argument :: position) name (hfirst.of_argument hnone) hname ?_
      rw [step, hstep, hstep']
      rfl
    | stuck hnone' hstep' =>
      refine .stuck (noRedex_app hnone hnone') ?_
      rw [step, hstep, hstep']
      rfl

theorem noRedex_var (name : String) : (var name).NoRedex := by
  apply noRedex_of_opens
  · intro h
    cases h
  · intro direction child hopens
    cases hopens

theorem noRedex_app_var (name : String) (argument : Term) : (app (var name) argument).NoRedex := by
  apply noRedex_of_opens
  · intro h
    cases h
  · intro direction child hopens
    cases hopens

theorem tried (book : Book) (term : Term) : Tried book term := by
  fun_induction Term.step book term with
  | case1 binder body ih => exact tried_body ih
  | case2 name => exact .stuck (noRedex_var name) rfl
  | case3 name => exact tried_reference name
  | case4 body argument =>
    exact .contracted [] _ body (firstRedex_root (.application none body argument)) rfl rfl
  | case5 name body argument =>
    exact .contracted [] _ (body.substitute (some name) argument)
      (firstRedex_root (.application (some name) body argument)) rfl rfl
  | case6 name argument => exact .stuck (noRedex_app_var name argument) rfl
  | case7 name argument => exact tried_head name argument
  | case8 function first argument ihf iha => exact tried_spine ihf iha

theorem Reaches.mem_refs {term subterm : Term} {position : List Direction}
    (h : Reaches term position subterm) {name : String} (hname : name ∈ subterm.refs)
    : name ∈ term.refs := by
  induction h with
  | root => exact hname
  | child _ hopens ih =>
    apply ih
    cases hopens with
    | body binder body => exact hname
    | functionApp function first argument => exact List.mem_append_left _ hname
    | functionRef other argument => exact List.mem_append_left _ hname
    | argument function first argument => exact List.mem_append_right _ hname

theorem step_cases {term : Term} (hrefs : ∀ name ∈ term.refs, name ∈ book.names)
    : (∃ position redex contractum, FirstRedex term position redex ∧
        redex.contractum? book = some contractum ∧
        term.step book = .ok { term := term.replaceAt position contractum, reduced := true }) ∨
      (term.NoRedex ∧ term.step book = .ok { term, reduced := false }) := by
  cases tried book term with
  | contracted position redex contractum hfirst hcontractum hstep =>
    exact Or.inl ⟨position, redex, contractum, hfirst, hcontractum, hstep⟩
  | stuck hnone hstep => exact Or.inr ⟨hnone, hstep⟩
  | missing position name hfirst hname hstep =>
    exact absurd (hrefs name (hfirst.reaches.mem_refs (by simp))) hname

/--
A step contracts the first redex that it can reach. If there is none, it leaves the term as it is.
-/
theorem step_contracts_first {term : Term} (hrefs : ∀ name ∈ term.refs, name ∈ book.names)
    : ((∃ position subterm, Reaches term position subterm ∧ subterm.IsRedex) →
        ∃ position redex, FirstRedex term position redex) ∧
      (∀ position redex, FirstRedex term position redex →
        ∃ contractum, redex.contractum? book = some contractum ∧
          term.step book = .ok { term := term.replaceAt position contractum, reduced := true }) ∧
      ((¬∃ position subterm, Reaches term position subterm ∧ subterm.IsRedex) →
        term.step book = .ok { term, reduced := false }) := by
  rcases step_cases hrefs with ⟨position, redex, contractum, hfirst, hcontractum, hstep⟩ | ⟨hnone, hstep⟩
  · refine ⟨fun _ => ⟨position, redex, hfirst⟩, ?_, ?_⟩
    · intro position' redex' hfirst'
      rcases hfirst.unique hfirst' with ⟨hposition, hredex⟩
      rw [hposition, hredex]
      exact ⟨contractum, hcontractum, hstep⟩
    · intro hnone
      exact absurd ⟨position, redex, hfirst.reaches, hfirst.isRedex⟩ hnone
  · refine ⟨?_, ?_, fun _ => hstep⟩
    · intro hexists
      rcases hexists with ⟨position, subterm, hreaches, hredex⟩
      exact absurd hredex (hnone position subterm hreaches)
    · intro position redex hfirst
      exact absurd hfirst.isRedex (hnone position redex hfirst.reaches)

theorem step_contracts_first_secondArgument
    : let book := Book.ofList [{ name := "id", body := .lam (some "x") (.var "x") }]
      let redex := app (lam (some "y") (.var "y")) (ref "id")
      let term := app (app (var "x") (ref "id")) redex
      (∀ name ∈ term.refs, name ∈ book.names) ∧ FirstRedex term [.argument] redex ∧
        ∃ contractum, redex.contractum? book = some contractum ∧
          term.step book = .ok { term := term.replaceAt [.argument] contractum, reduced := true } := by
  intro book redex term
  have hrefs : ∀ name ∈ term.refs, name ∈ book.names := by decide
  have hfirst : FirstRedex term [.argument] redex := by
    apply (firstRedex_root (.application _ _ _)).of_opens _ (.argument _ _ _)
    · intro other sibling hopens
      cases hopens with
      | argument => exact Or.inl rfl
      | functionApp =>
        refine Or.inr (Or.inr (noRedex_of_opens ?_ ?_))
        · intro h
          cases h
        · intro direction child hopens
          cases hopens
    · intro h
      cases h
  exact ⟨hrefs, hfirst, (step_contracts_first hrefs).2.1 _ _ hfirst⟩

end Term

end NamedLambda
