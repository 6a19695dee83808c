import NamedLambda.Proofs.Outline

/-!
This module contains the reading of printed books. A book whose names are names of the grammar, and that
was not resolved yet, is read again from its own text.
-/

namespace NamedLambda

namespace Source

theorem Piece.head?_stop {stop : Char} (h : isNameChar stop = false) (rest : List Char)
    : ∀ d ∈ (stop :: rest).head?, isNameChar d = false := by
  intro d hd
  rw [List.head?_cons, Option.mem_some_iff] at hd
  rw [← hd]
  exact h

theorem words_of_isName {name : String} (h : IsName name) {rest : List Char}
    (hrest : ∀ d ∈ rest.head?, Piece.isNameChar d = false)
    : words (name.toList ++ rest) = .token .name name.toList :: words rest := by
  rcases h with ⟨c, others, hname, hstart, hothers⟩
  rw [hname]
  exact words_name hstart hothers hrest

theorem Spells.isName {code : String} {tokens : List Token} (h : Spells code tokens) {token : Token}
    (hmem : token ∈ tokens) (hkind : token.kind = .name) : IsName token.text := by
  have hwords : token.piece ∈ words code.toList := by
    rw [h.words_eq]
    exact List.mem_map_of_mem hmem
  rcases fits_of_mem_pieces (List.mem_filter.1 hwords).1 with ⟨rest, hfits⟩
  cases hfits with
  | token hmatches =>
    rw [hkind, Kind.Matches, String.ofList_toList] at hmatches
    exact hmatches

/-!
The derivation of a printed term. The offsets of its tokens do not matter.
-/

def Terminal.ofText (kind : Kind) (text : String) : Terminal kind where
  token := { kind, text, offset := 0 }
  kind_eq := rfl

def BinderTree.ofBinder : Option String → BinderTree
  | none => .erased (.ofText .erased "*")
  | some name => .named (.ofText .name name)

theorem parseStatement_of_header {name text : String} (hname : IsName name) {body : TermTree}
    (h : words text.toList = body.tokens.map Token.piece)
    : parseStatement (name ++ " = " ++ text) = .ok (.definition { name, body := body.term }) := by
  let tree : DefinitionTree := { name := .ofText .name name, equals := .ofText .equals "=", body }
  have htext : (name ++ " = " ++ text).toList = name.toList ++ ' ' :: '=' :: ' ' :: text.toList := by
    simp
  have hwords : words (name ++ " = " ++ text).toList = tree.tokens.map Token.piece := by
    rw [htext, words_of_isName hname (Piece.head?_stop (by decide) _), words_blank (by decide),
      words_symbol rfl, words_blank (by decide), h]
    simp [tree, DefinitionTree.tokens, Terminal.ofText, Token.piece]
  exact parseStatement_of_words hwords

end Source

open Source

namespace Term

def Spellable : Term → Prop
  | lam binder body => (∀ name ∈ binder, IsName name) ∧ body.Spellable
  | var name => IsName name
  | ref name => IsName name
  | app function argument => function.Spellable ∧ argument.Spellable

def tree : Term → TermTree
  | lam binder body => .abstraction (.ofText .lambda "λ") (.ofBinder binder) body.tree
  | var name => .name (.ofText .name name)
  | ref name => .name (.ofText .name name)
  | app function argument =>
    .application (.ofText .leftParen "(") function.tree (.one argument.tree) (.ofText .rightParen ")")

/--
The term with variables in place of its references, as both are written alike.
-/
def unresolved : Term → Term
  | lam binder body => lam binder body.unresolved
  | var name => var name
  | ref name => var name
  | app function argument => app function.unresolved argument.unresolved

theorem unresolved_eq_self {term : Term} (h : term.refs = []) : term.unresolved = term := by
  induction term with
  | lam binder body ih => rw [unresolved, ih h]
  | var name => rfl
  | ref name => simp [refs] at h
  | app function argument ihf iha =>
    rw [refs_app, List.append_eq_nil_iff] at h
    rw [unresolved, ihf h.1, iha h.2]

theorem term_tree (term : Term) : term.tree.term = term.unresolved := by
  induction term with
  | lam binder body ih =>
    have hbinder : (BinderTree.ofBinder binder).binder = binder := by
      cases binder with
      | none => rfl
      | some name => rfl
    rw [tree, TermTree.term, hbinder, ih, unresolved]
  | var name => rfl
  | ref name => rfl
  | app function argument ihf iha =>
    rw [tree, TermTree.term, ArgumentsTree.applied, ihf, iha, unresolved]

theorem words_binderText {binder : Option String} (h : ∀ name ∈ binder, IsName name) (rest : List Char)
    : words ((binderText binder).toList ++ ' ' :: rest) =
      (BinderTree.ofBinder binder).token.piece :: words rest := by
  have hblank : words (' ' :: rest) = words rest := words_blank (by decide) rest
  cases binder with
  | none =>
    rw [← hblank]
    exact words_symbol rfl _
  | some name =>
    rw [← hblank]
    exact words_of_isName (h name rfl) (Piece.head?_stop (by decide) rest)

theorem words_render {term : Term} (h : term.Spellable) {rest : List Char}
    (hrest : ∀ d ∈ rest.head?, Piece.isNameChar d = false)
    : words (term.render.toList ++ rest) = term.tree.tokens.map Token.piece ++ words rest := by
  induction term generalizing rest with
  | lam binder body ih =>
    have htext : (lam binder body).render.toList ++ rest =
        'λ' :: ((binderText binder).toList ++ ' ' :: (body.render.toList ++ rest)) := by
      simp [render]
    rw [htext, words_symbol rfl, words_binderText h.1, ih h.2 hrest]
    rfl
  | var name => exact words_of_isName h hrest
  | ref name => exact words_of_isName h hrest
  | app function argument ihf iha =>
    have htext : (app function argument).render.toList ++ rest =
        '(' :: (function.render.toList ++ ' ' :: (argument.render.toList ++ ')' :: rest)) := by
      simp [render]
    rw [htext, words_symbol rfl, ihf h.1 (Piece.head?_stop (by decide) _), words_blank (by decide),
      iha h.2 (Piece.head?_stop (by decide) rest), words_symbol rfl]
    simp [tree, TermTree.tokens, ArgumentsTree.tokens, Terminal.ofText, Token.piece]

theorem words_render_eq {term : Term} (h : term.Spellable)
    : words term.render.toList = term.tree.tokens.map Token.piece := by
  have hend : ∀ d ∈ ([] : List Char).head?, Piece.isNameChar d = false := by simp
  have hwords := words_render h hend
  simpa [words, pieces_nil] using hwords

end Term

/--
A definition as it is read from a text: its names are names of the grammar, and none of them has been
resolved.
-/
structure Definition.Readable (definition : Definition) : Prop where
  isName : IsName definition.name
  spellable : definition.body.Spellable
  refs_eq : definition.body.refs = []

theorem Definition.Readable.parseStatement_render {definition : Definition} (h : definition.Readable)
    : parseStatement definition.render = .ok (.definition definition) := by
  have hparse := parseStatement_of_header h.isName (Term.words_render_eq h.spellable)
  rw [Term.term_tree, Term.unresolved_eq_self h.refs_eq] at hparse
  exact hparse

theorem intercalate_append_line (text line : String) (lines : List String)
    : "\n".intercalate ((text ++ "\n" ++ line) :: lines) = "\n".intercalate (text :: line :: lines) := by
  rw [String.intercalate_cons_append, String.intercalate_cons_cons]

theorem parseBook_append_render {text : String} {book : Book} {definitions : List Definition}
    (h : parseBook text = .ok book) (hreadable : ∀ definition ∈ definitions, definition.Readable)
    : parseBook ("\n".intercalate (text :: definitions.map Definition.render)) =
      .ok (definitions.foldl Book.define book) := by
  induction definitions generalizing text book with
  | nil =>
    rw [List.map_nil, String.intercalate_singleton]
    exact h
  | cons first rest ih =>
    rw [List.forall_mem_cons] at hreadable
    rw [List.map_cons, ← intercalate_append_line, List.foldl_cons]
    apply ih
    · exact parseBook_append_line h hreadable.1.parseStatement_render
    · exact hreadable.2

theorem parseBook_render {book : Book} (h : ∀ definition ∈ book.definitions, definition.Readable)
    : parseBook book.render = .ok book := by
  have hbook := book.ofList_definitions
  unfold Book.render
  cases hdefinitions : book.definitions with
  | nil =>
    rw [hdefinitions] at hbook
    rw [← hbook, List.map_nil, String.intercalate_nil]
    have hwords : words "".toList =
        (([] : List DefinitionTree).flatMap DefinitionTree.tokens).map Token.piece := by
      simp [words, pieces_nil]
    exact parseBook_of_words hwords
  | cons first rest =>
    rw [hdefinitions] at h hbook
    rw [List.forall_mem_cons] at h
    have hfirst := parseBook_of_parseStatement h.1.parseStatement_render
    rw [List.map_cons, parseBook_append_render hfirst h.2, ← hbook]
    rfl

namespace Source

mutual

theorem TermTree.spellable_term : ∀ tree : TermTree,
    (∀ token ∈ tree.tokens, token.kind = .name → IsName token.text) → tree.term.Spellable
  | .name name, h => h name.token (by simp [TermTree.tokens]) name.kind_eq
  | .abstraction lambda binder body, h => by
    simp only [TermTree.tokens, List.forall_mem_cons] at h
    refine ⟨?_, body.spellable_term h.2.2⟩
    cases binder with
    | named name =>
      intro text htext
      rw [BinderTree.binder, Option.mem_some_iff] at htext
      rw [← htext]
      exact h.2.1 name.kind_eq
    | erased star =>
      intro text htext
      simp [BinderTree.binder] at htext
  | .application left function arguments right, h => by
    simp only [TermTree.tokens, List.forall_mem_cons, List.forall_mem_append] at h
    rw [TermTree.term]
    exact arguments.spellable_applied h.2.2.1 (function.spellable_term h.2.1)

theorem ArgumentsTree.spellable_applied : ∀ (tree : ArgumentsTree) {function : Term},
    (∀ token ∈ tree.tokens, token.kind = .name → IsName token.text) → function.Spellable →
      (tree.applied function).Spellable
  | .one argument, function, h, hfunction => by
    rw [ArgumentsTree.tokens] at h
    rw [ArgumentsTree.applied]
    exact ⟨hfunction, argument.spellable_term h⟩
  | .more argument rest, function, h, hfunction => by
    simp only [ArgumentsTree.tokens, List.forall_mem_append] at h
    rw [ArgumentsTree.applied]
    exact rest.spellable_applied h.2 ⟨hfunction, argument.spellable_term h.1⟩

end

theorem spellable_of_parseTerm {code : String} {term : Term} (h : parseTerm code = .ok term)
    : term.Spellable := by
  rcases (parseTerm_eq_ok_iff code term).1 h with ⟨tree, hspells, hterm⟩
  rw [← hterm]
  exact tree.spellable_term (fun _ => hspells.isName)

theorem readable_of_parseBook {code : String} {book : Book} (h : parseBook code = .ok book)
    : ∀ definition ∈ book.definitions, definition.Readable := by
  intro definition hmem
  rcases (parseBook_eq_ok_iff code book).1 h with ⟨trees, hspells, hholds⟩
  rcases List.mem_map.1 (hholds.mem_of_mem hmem) with ⟨tree, htree, hdefinition⟩
  have hnames : ∀ token ∈ tree.tokens, token.kind = .name → IsName token.text := by
    intro token htoken
    exact hspells.isName (List.mem_flatMap.2 ⟨tree, htree, htoken⟩)
  simp only [DefinitionTree.tokens, List.forall_mem_cons] at hnames
  rw [← hdefinition]
  exact
    { isName := hnames.1 tree.name.kind_eq
      spellable := tree.body.spellable_term hnames.2.2
      refs_eq := tree.body.refs_term }

end Source

end NamedLambda
