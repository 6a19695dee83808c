import NamedLambda.Proofs.LexicalResolution
import NamedLambda.Proofs.Printing

/-!
This module contains the terms that can be read again from their own text. A text does not tell a
reference from a variable, so that reading and resolving it gives the term back exactly if every name is
a reference where resolution makes one of it, and a variable everywhere else.
-/

namespace NamedLambda

open Source (IsName)

def Node.unresolved : Node → Node
  | ref name => var name
  | node => node

theorem Node.resolve_unresolved_eq_iff (names : List String) (binders : List (Option String))
    (node : Node)
    : node.unresolved.resolve names binders = node ↔
      (∀ name, node = .ref name → name ∈ names ∧ some name ∉ binders) ∧
        (∀ name, node = .var name → name ∈ names → some name ∈ binders) := by
  cases node with
  | lam binder => simp [unresolved, resolve]
  | app => simp [unresolved, resolve]
  | var name =>
    simp only [unresolved, resolve, ite_eq_right_iff, reduceCtorEq, imp_false, not_and,
      Decidable.not_not, false_implies, implies_true, true_and, var.injEq, forall_eq']
  | ref name =>
    simp only [unresolved, resolve, ite_eq_left_iff, reduceCtorEq, imp_false, Decidable.not_not, ref.injEq,
      forall_eq', false_implies, implies_true, and_true]

namespace Term

theorem node?_unresolved (term : Term) (position : List Direction)
    : term.unresolved.node? position = (term.node? position).map Node.unresolved := by
  induction term generalizing position with
  | lam binder body ih =>
    cases position with
    | nil => rfl
    | cons direction rest =>
      cases direction with
      | body => exact ih rest
      | function => rfl
      | argument => rfl
  | var name =>
    cases position with
    | nil => rfl
    | cons direction rest => rfl
  | ref name =>
    cases position with
    | nil => rfl
    | cons direction rest => rfl
  | app function argument ihf iha =>
    cases position with
    | nil => rfl
    | cons direction rest =>
      cases direction with
      | body => rfl
      | function => exact ihf rest
      | argument => exact iha rest

theorem bindersAbove_unresolved (term : Term) (position : List Direction)
    : term.unresolved.bindersAbove position = term.bindersAbove position := by
  induction term generalizing position with
  | lam binder body ih =>
    cases position with
    | nil => rfl
    | cons direction rest =>
      cases direction with
      | body => exact congrArg (· ++ [binder]) (ih rest)
      | function => rfl
      | argument => rfl
  | var name => rfl
  | ref name => rfl
  | app function argument ihf iha =>
    cases position with
    | nil => rfl
    | cons direction rest =>
      cases direction with
      | body => rfl
      | function => exact ihf rest
      | argument => exact iha rest

/--
References have some of the names and stand where no binder above has their name. Where one of the names
stands for a variable, a binder above has it.
-/
structure Unambiguous (term : Term) (names : List String) : Prop where
  ref : ∀ position name, term.node? position = some (.ref name) →
    name ∈ names ∧ some name ∉ term.bindersAbove position
  var : ∀ position name, term.node? position = some (.var name) → name ∈ names →
    some name ∈ term.bindersAbove position

theorem unambiguous_iff (term : Term) (names : List String)
    : term.Unambiguous names ↔
      ∀ position node, term.node? position = some node →
        node.unresolved.resolve names (term.bindersAbove position) = node := by
  simp only [Node.resolve_unresolved_eq_iff]
  constructor
  · intro h position node hnode
    constructor
    · intro name heq
      exact h.ref position name (heq ▸ hnode)
    · intro name heq
      exact h.var position name (heq ▸ hnode)
  · intro h
    constructor
    · intro position name hnode
      exact (h position _ hnode).1 name rfl
    · intro position name hnode
      exact (h position _ hnode).2 name rfl

theorem resolve_unresolved_eq_iff (term : Term) (names : List String)
    : term.unresolved.resolve names = term ↔ term.Unambiguous names := by
  rw [eq_comm, eq_resolve_iff, unambiguous_iff]
  simp only [node?_unresolved, bindersAbove_unresolved, Option.map_map]
  constructor
  · intro h position node hnode
    have heq := h position
    rw [hnode, Option.map_some, Option.some.injEq] at heq
    exact heq.symm
  · intro h position
    cases hnode : term.node? position with
    | none => rfl
    | some node =>
      rw [Option.map_some, Option.some.injEq]
      exact (h position node hnode).symm

theorem parseTerm_render {term : Term} (h : term.Spellable)
    : Source.parseTerm term.render = .ok term.unresolved := by
  rw [Source.parseTerm_of_words (words_render_eq h), term_tree]

end Term

/--
A term whose names can be written is read from its text with variables in place of its references, and
resolving these gives the term back exactly if it is unambiguous. A term that was read is read again from
its text.
-/
theorem parseTerm_render_faithful {term : Term} (h : term.Spellable) (names : List String)
    : Source.parseTerm term.render = .ok term.unresolved ∧
      ((Source.parseTerm term.render).map (Term.resolve names) = .ok term ↔ term.Unambiguous names) ∧
      (∀ code parsed, Source.parseTerm code = .ok parsed →
        Source.parseTerm parsed.render = .ok parsed) := by
  have hparse := Term.parseTerm_render h
  refine ⟨hparse, ?_, ?_⟩
  · rw [hparse, Except.map, Except.ok.injEq, Term.resolve_unresolved_eq_iff]
  · intro code parsed hcode
    rw [Term.parseTerm_render (Source.spellable_of_parseTerm hcode),
      Term.unresolved_eq_self (Source.refs_of_parseTerm hcode)]

-- A reduction can move a reference below a binder of its name, where its text is that of a variable.
theorem parseTerm_render_faithful_captured
    : let term : Term := .lam (some "f") (.app (.ref "f") (.ref "g"))
      term.Spellable ∧ term.render = "λf (f g)" ∧
        Source.parseTerm term.render = .ok (.lam (some "f") (.app (.var "f") (.var "g"))) ∧
        ¬term.Unambiguous ["f", "g"] ∧
        (Source.parseTerm term.render).map (Term.resolve ["f", "g"]) ≠ .ok term := by
  intro term
  have hf : IsName "f" := ⟨'f', [], rfl, by decide, by simp⟩
  have hg : IsName "g" := ⟨'g', [], rfl, by decide, by simp⟩
  have hspellable : term.Spellable := by
    refine ⟨?_, hf, hg⟩
    intro name hname
    rw [Option.mem_some_iff] at hname
    rw [← hname]
    exact hf
  have hambiguous : ¬term.Unambiguous ["f", "g"] := by
    intro h
    have hfree := (h.ref [.body, .function] "f" rfl).2
    simp [term, Term.bindersAbove] at hfree
  rcases parseTerm_render_faithful hspellable ["f", "g"] with ⟨hparse, hfaithful, _⟩
  exact ⟨hspellable, by decide, hparse, hambiguous, fun heq => hambiguous (hfaithful.1 heq)⟩

end NamedLambda
