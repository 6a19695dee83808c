import NamedLambda.Source.Grammar
import NamedLambda.Proofs.Variables

/-!
This module contains the derivations of the grammar as trees over tokens, and the tokens, terms and
definitions that they stand for. A derivation is determined by its tokens: no term begins with another
one.
-/

namespace NamedLambda.Source

structure Terminal (kind : Kind) where
  token : Token
  kind_eq : token.kind = kind

theorem Terminal.ext {kind : Kind} {left right : Terminal kind} (h : left.token = right.token)
    : left = right := by
  cases left
  cases right
  simp only at h
  subst h
  rfl

theorem Terminal.token_ne {kind other : Kind} (h : kind ≠ other) (left : Terminal kind)
    (right : Terminal other) : left.token ≠ right.token := by
  intro heq
  apply h
  rw [← left.kind_eq, ← right.kind_eq, heq]

/--
`binder ::= name | "*"`
-/
inductive BinderTree where
  | named (name : Terminal .name)
  | erased (star : Terminal .erased)

mutual

/--
`term ::= name | lambda binder term | "(" term arguments ")"`
-/
inductive TermTree where
  | name (name : Terminal .name)
  | abstraction (lambda : Terminal .lambda) (binder : BinderTree) (body : TermTree)
  | application (left : Terminal .leftParen) (function : TermTree) (arguments : ArgumentsTree)
    (right : Terminal .rightParen)

/--
`arguments ::= term | term arguments`
-/
inductive ArgumentsTree where
  | one (argument : TermTree)
  | more (argument : TermTree) (rest : ArgumentsTree)

end

/--
`definition ::= name "=" term`
-/
structure DefinitionTree where
  name : Terminal .name
  equals : Terminal .equals
  body : TermTree

def BinderTree.token : BinderTree → Token
  | named name => name.token
  | erased star => star.token

def BinderTree.binder : BinderTree → Option String
  | named name => some name.token.text
  | erased _ => none

mutual

def TermTree.tokens : TermTree → List Token
  | .name name => [name.token]
  | .abstraction lambda binder body => lambda.token :: binder.token :: body.tokens
  | .application left function arguments right =>
    left.token :: (function.tokens ++ (arguments.tokens ++ [right.token]))

def ArgumentsTree.tokens : ArgumentsTree → List Token
  | .one argument => argument.tokens
  | .more argument rest => argument.tokens ++ rest.tokens

end

mutual

def TermTree.term : TermTree → Term
  | .name name => .var name.token.text
  | .abstraction _ binder body => .lam binder.binder body.term
  | .application _ function arguments _ => arguments.applied function.term

def ArgumentsTree.applied (function : Term) : ArgumentsTree → Term
  | .one argument => .app function argument.term
  | .more argument rest => rest.applied (.app function argument.term)

end

namespace DefinitionTree

def tokens (tree : DefinitionTree) : List Token :=
  tree.name.token :: tree.equals.token :: tree.body.tokens

def definition (tree : DefinitionTree) : Definition where
  name := tree.name.token.text
  body := tree.body.term

end DefinitionTree

mutual

theorem TermTree.refs_term : ∀ tree : TermTree, tree.term.refs = []
  | .name name => rfl
  | .abstraction lambda binder body => body.refs_term
  | .application left function arguments right => by
    rw [TermTree.term]
    exact arguments.refs_applied function.refs_term

theorem ArgumentsTree.refs_applied : ∀ (tree : ArgumentsTree) {function : Term},
    function.refs = [] → (tree.applied function).refs = []
  | .one argument, function, h => by
    rw [ArgumentsTree.applied, Term.refs_app, h, argument.refs_term]
    rfl
  | .more argument rest, function, h => by
    rw [ArgumentsTree.applied]
    apply rest.refs_applied
    rw [Term.refs_app, h, argument.refs_term]
    rfl

end

def TermTree.firstKind : TermTree → Kind
  | .name _ => .name
  | .abstraction _ _ _ => .lambda
  | .application _ _ _ _ => .leftParen

theorem TermTree.exists_tokens_eq_cons (tree : TermTree)
    : ∃ token more, tree.tokens = token :: more ∧ token.kind = tree.firstKind := by
  cases tree with
  | name name => exact ⟨name.token, [], by rw [tokens], name.kind_eq⟩
  | abstraction lambda binder body => exact ⟨lambda.token, _, by rw [tokens], lambda.kind_eq⟩
  | application left function arguments right =>
    exact ⟨left.token, _, by rw [tokens], left.kind_eq⟩

theorem TermTree.firstKind_eq {left right : TermTree} {rest more : List Token}
    (h : left.tokens ++ rest = right.tokens ++ more) : left.firstKind = right.firstKind := by
  rcases left.exists_tokens_eq_cons with ⟨token, others, htokens, hkind⟩
  rcases right.exists_tokens_eq_cons with ⟨token', others', htokens', hkind'⟩
  rw [htokens, htokens', List.cons_append, List.cons_append, List.cons.injEq] at h
  rw [← hkind, ← hkind', h.1]

theorem ArgumentsTree.exists_tokens_eq_cons (tree : ArgumentsTree)
    : ∃ token more, tree.tokens = token :: more ∧ token.kind ≠ .rightParen := by
  have hfirst : ∀ argument : TermTree, argument.firstKind ≠ .rightParen := by
    intro argument
    cases argument <;> simp [TermTree.firstKind]
  cases tree with
  | one argument =>
    rcases argument.exists_tokens_eq_cons with ⟨token, more, htokens, hkind⟩
    exact ⟨token, more, by rw [tokens, htokens], hkind ▸ hfirst argument⟩
  | more argument rest =>
    rcases argument.exists_tokens_eq_cons with ⟨token, more, htokens, hkind⟩
    exact ⟨token, more ++ rest.tokens, by rw [tokens, htokens, List.cons_append],
      hkind ▸ hfirst argument⟩

theorem ArgumentsTree.tokens_append_ne (tree : ArgumentsTree) (right : Terminal .rightParen)
    (rest more : List Token) : tree.tokens ++ rest ≠ right.token :: more := by
  rcases tree.exists_tokens_eq_cons with ⟨token, others, htokens, hkind⟩
  rw [htokens, List.cons_append]
  intro heq
  rw [List.cons.injEq] at heq
  apply hkind
  rw [heq.1, right.kind_eq]

theorem BinderTree.token_inj {left right : BinderTree} (h : left.token = right.token)
    : left = right := by
  cases left with
  | named name =>
    cases right with
    | named other => exact congrArg BinderTree.named (Terminal.ext h)
    | erased star => exact absurd h (Terminal.token_ne (by decide) name star)
  | erased star =>
    cases right with
    | named name => exact absurd h (Terminal.token_ne (by decide) star name)
    | erased other => exact congrArg BinderTree.erased (Terminal.ext h)

mutual

theorem TermTree.tokens_append_inj : ∀ (left right : TermTree) {rest more : List Token},
    left.tokens ++ rest = right.tokens ++ more → left = right ∧ rest = more
  | .name name, .name other, rest, more, h => by
    simp only [TermTree.tokens, List.cons_append, List.nil_append, List.cons.injEq] at h
    rw [Terminal.ext h.1]
    exact ⟨rfl, h.2⟩
  | .abstraction lambda binder body, .abstraction lambda' binder' body', rest, more, h => by
    simp only [TermTree.tokens, List.cons_append, List.cons.injEq] at h
    rcases h with ⟨hlambda, hbinder, hbody⟩
    rcases body.tokens_append_inj body' hbody with ⟨hbody, hrest⟩
    rw [Terminal.ext hlambda, BinderTree.token_inj hbinder, hbody]
    exact ⟨rfl, hrest⟩
  | .application left function arguments right, .application left' function' arguments' right',
    rest, more, h => by
    simp only [TermTree.tokens, List.cons_append, List.cons.injEq, List.append_assoc,
      List.nil_append] at h
    rcases function.tokens_append_inj function' h.2 with ⟨hfunction, harguments⟩
    rcases arguments.tokens_append_inj arguments' harguments with ⟨harguments, hright, hrest⟩
    rw [Terminal.ext h.1, hfunction, harguments, hright]
    exact ⟨rfl, hrest⟩
  | .name _, .abstraction _ _ _, _, _, h => nomatch TermTree.firstKind_eq h
  | .name _, .application _ _ _ _, _, _, h => nomatch TermTree.firstKind_eq h
  | .abstraction _ _ _, .name _, _, _, h => nomatch TermTree.firstKind_eq h
  | .abstraction _ _ _, .application _ _ _ _, _, _, h => nomatch TermTree.firstKind_eq h
  | .application _ _ _ _, .name _, _, _, h => nomatch TermTree.firstKind_eq h
  | .application _ _ _ _, .abstraction _ _ _, _, _, h => nomatch TermTree.firstKind_eq h

-- The closing parenthesis decides between the last argument and one that others follow.
theorem ArgumentsTree.tokens_append_inj : ∀ (left right : ArgumentsTree)
    {close close' : Terminal .rightParen} {rest more : List Token},
    left.tokens ++ close.token :: rest = right.tokens ++ close'.token :: more →
      left = right ∧ close = close' ∧ rest = more
  | .one argument, .one argument', close, close', rest, more, h => by
    simp only [ArgumentsTree.tokens] at h
    rcases argument.tokens_append_inj argument' h with ⟨hargument, hrest⟩
    rw [List.cons.injEq] at hrest
    exact ⟨by rw [hargument], Terminal.ext hrest.1, hrest.2⟩
  | .more argument others, .more argument' others', close, close', rest, more, h => by
    simp only [ArgumentsTree.tokens, List.append_assoc] at h
    rcases argument.tokens_append_inj argument' h with ⟨hargument, hothers⟩
    rcases others.tokens_append_inj others' hothers with ⟨hothers, hclose, hrest⟩
    exact ⟨by rw [hargument, hothers], hclose, hrest⟩
  | .one argument, .more argument' others, close, close', rest, more, h => by
    simp only [ArgumentsTree.tokens, List.append_assoc] at h
    have hrest := (argument.tokens_append_inj argument' h).2
    exact absurd hrest.symm (others.tokens_append_ne close _ rest)
  | .more argument others, .one argument', close, close', rest, more, h => by
    simp only [ArgumentsTree.tokens, List.append_assoc] at h
    have hrest := (argument.tokens_append_inj argument' h).2
    exact absurd hrest (others.tokens_append_ne close' _ more)

end

theorem TermTree.tokens_inj {left right : TermTree} (h : left.tokens = right.tokens)
    : left = right := by
  have : left.tokens ++ [] = right.tokens ++ [] := by rw [h]
  exact (left.tokens_append_inj right this).1

theorem DefinitionTree.tokens_append_inj {left right : DefinitionTree} {rest more : List Token}
    (h : left.tokens ++ rest = right.tokens ++ more) : left = right ∧ rest = more := by
  simp only [tokens, List.cons_append, List.cons.injEq] at h
  rcases h with ⟨hname, hequals, hbody⟩
  rcases left.body.tokens_append_inj right.body hbody with ⟨hbody, hrest⟩
  cases left
  cases right
  simp only [mk.injEq]
  exact ⟨⟨Terminal.ext hname, Terminal.ext hequals, hbody⟩, hrest⟩

theorem DefinitionTree.flatMap_tokens_inj {left right : List DefinitionTree}
    (h : left.flatMap tokens = right.flatMap tokens) : left = right := by
  induction left generalizing right with
  | nil =>
    cases right with
    | nil => rfl
    | cons first rest => simp [tokens] at h
  | cons first rest ih =>
    cases right with
    | nil => simp [tokens] at h
    | cons first' rest' =>
      rw [List.flatMap_cons, List.flatMap_cons] at h
      rcases tokens_append_inj h with ⟨hfirst, hrest⟩
      rw [hfirst, ih hrest]

end NamedLambda.Source
