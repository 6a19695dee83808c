import NamedLambda.Proofs.GoodBook
import NamedLambda.Proofs.Positions

/-!
This module contains the resolution of names seen at every position of a term: it changes a variable that
is to be resolved and that no binder above it binds, and no other node. Resolving among some names and
then among others is resolving among all of them, so that it does not matter how often a book is resolved
while it grows.
-/

namespace NamedLambda

/--
The resolution of a node that is below `binders`.
-/
def Node.resolve (names : List String) (binders : List (Option String)) : Node → Node
  | var name => if name ∈ names ∧ some name ∉ binders then ref name else var name
  | node => node

namespace Term

-- The binders of the path come after those inside of the term, as both are listed innermost first.
theorem node?_resolveBelow (names : List String) (term : Term) (path : List (Option String))
    (position : List Direction)
    : (term.resolveBelow names .empty path).node? position =
      (term.node? position).map (Node.resolve names (term.bindersAbove position ++ path)) := by
  induction term generalizing path position with
  | lam binder body ih =>
    cases position with
    | nil => rfl
    | cons direction rest =>
      cases direction with
      | body =>
        simp only [resolveBelow, node?, bindersAbove, ih, List.append_assoc, List.singleton_append]
      | function => rfl
      | argument => rfl
  | var name =>
    cases position with
    | nil =>
      simp only [resolveBelow, Scope.bindsBelow_empty, node?, bindersAbove, List.nil_append,
        Option.map_some, Node.resolve, List.contains_eq_mem, Bool.and_eq_true, Bool.not_eq_true',
        decide_eq_false_iff_not, decide_eq_true_eq, and_comm]
      split
      · rfl
      · rfl
    | cons direction rest =>
      simp only [resolveBelow]
      split
      · rfl
      · rfl
  | ref name =>
    cases position with
    | nil => rfl
    | cons direction rest => rfl
  | app function argument ihf iha =>
    cases position with
    | nil => rfl
    | cons direction rest =>
      cases direction with
      | body => rfl
      | function => simp only [resolveBelow, node?, bindersAbove, ihf]
      | argument => simp only [resolveBelow, node?, bindersAbove, iha]

theorem node?_resolve (names : List String) (term : Term) (position : List Direction)
    : (term.resolve names).node? position =
      (term.node? position).map (Node.resolve names (term.bindersAbove position)) := by
  rw [resolve_eq, node?_resolveBelow, List.append_nil]

theorem eq_resolve_iff (names : List String) (term result : Term)
    : result = term.resolve names ↔
      ∀ position, result.node? position =
        (term.node? position).map (Node.resolve names (term.bindersAbove position)) := by
  constructor
  · intro h position
    rw [h, node?_resolve]
  · intro h
    apply ext_node?
    intro position
    rw [h, node?_resolve]

theorem resolve_resolve_of_union {names more union : List String}
    (h : ∀ name, name ∈ union ↔ name ∈ names ∨ name ∈ more) (term : Term)
    : (term.resolve names).resolve more = term.resolve union := by
  rw [resolve_resolve]
  apply resolve_congr
  intro name
  rw [List.mem_append, h]

end Term

namespace Book

theorem mapBodies_foldl_resolve (book : Book) {sets : List (List String)} {last : List String}
    (h : ∀ names ∈ sets, ∀ name ∈ names, name ∈ last)
    : (sets.foldl (fun book names => book.mapBodies (Term.resolve names)) book).mapBodies
        (Term.resolve last) = book.mapBodies (Term.resolve last) := by
  induction sets generalizing book with
  | nil => rfl
  | cons names rest ih =>
    rw [List.forall_mem_cons] at h
    rw [List.foldl_cons, ih _ h.2, mapBodies_mapBodies]
    simp only [Term.resolve_resolve_of_subset h.1]

theorem foldl_define_resolve (book : Book) (definitions : List Definition)
    : definitions.foldl (fun book definition => (book.define definition).resolve) book.resolve =
      (definitions.foldl define book).resolve := by
  induction definitions generalizing book with
  | nil => rfl
  | cons definition rest ih => rw [List.foldl_cons, List.foldl_cons, resolve_define_resolve, ih]

end Book

/--
Resolution replaces exactly the variables that are to be resolved and that no binder on the way to them
binds, and keeps every other node. So it keeps the text of a term, takes the names from its free variables
and adds those of them that were free to its references. Resolving among two sets of names one after the
other is resolving among all of them, in particular twice among the same ones and in any order. A book
that is resolved among sets of names up to the last one, or after each of its definitions, is the same as
one that is resolved only once.
-/
theorem resolution_lexical (names : List String) (term : Term)
    : (∀ result, result = term.resolve names ↔
        ∀ position, result.node? position =
          (term.node? position).map (Node.resolve names (term.bindersAbove position))) ∧
      (term.resolve names).render = term.render ∧
      (term.resolve names).freeVars = term.freeVars.filter (fun name => name ∉ names) ∧
      (∀ name, name ∈ (term.resolve names).refs ↔
        name ∈ term.refs ∨ (name ∈ term.freeVars ∧ name ∈ names)) ∧
      (∀ more union, (∀ name, name ∈ union ↔ name ∈ names ∨ name ∈ more) →
        (term.resolve names).resolve more = term.resolve union) ∧
      (term.resolve names).resolve names = term.resolve names ∧
      (∀ more, (term.resolve names).resolve more = (term.resolve more).resolve names) ∧
      (∀ (book : Book) (sets : List (List String)) (last : List String),
        (∀ earlier ∈ sets, ∀ name ∈ earlier, name ∈ last) →
        (sets.foldl (fun book names => book.mapBodies (Term.resolve names)) book).mapBodies
          (Term.resolve last) = book.mapBodies (Term.resolve last)) ∧
      (∀ (book : Book) (definitions : List Definition),
        definitions.foldl (fun book definition => (book.define definition).resolve) book.resolve =
          (definitions.foldl Book.define book).resolve) := by
  refine ⟨Term.eq_resolve_iff names term, Term.render_resolve names term,
    Term.freeVars_resolve names term, Term.mem_refs_resolve names term, ?_, ?_, ?_, ?_, ?_⟩
  · intro more union hunion
    exact Term.resolve_resolve_of_union hunion term
  · apply Term.resolve_resolve_of_union
    simp
  · intro more
    rw [Term.resolve_resolve more names]
    apply Term.resolve_resolve_of_union
    intro name
    rw [List.mem_append, or_comm]
  · intro book sets last hlast
    exact book.mapBodies_foldl_resolve hlast
  · exact Book.foldl_define_resolve

-- The binder `x` ends with its abstraction, and the erased one binds nothing.
example
    : (Term.app (.lam (some "x") (.app (.var "x") (.lam none (.var "y")))) (.var "x")).resolve ["x", "y"] =
      .app (.lam (some "x") (.app (.var "x") (.lam none (.ref "y")))) (.ref "x") := by decide

end NamedLambda
