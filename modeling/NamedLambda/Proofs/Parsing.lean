import NamedLambda.Failure
import NamedLambda.Proofs.BookEntries
import NamedLambda.Proofs.Reading

/-!
This module contains what texts are read to: a text is accepted exactly if it divides into tokens that
the grammar derives, and any other one is turned down with a diagnostic that shows one of its lines.
-/

namespace NamedLambda

namespace Text

theorem length_lines (text : List Char) : (lines text).length = text.count '\n' + 1 := by
  induction text with
  | nil => rfl
  | cons c rest ih =>
    unfold lines
    split
    · next heq =>
      rw [List.length_cons, ih, heq, List.count_cons_self]
    · next hne =>
      rw [List.count_cons_of_ne hne]
      split
      · next hnil =>
        rw [hnil, List.length_nil] at ih
        omega
      · next line more hcons =>
        rw [hcons, List.length_cons] at ih
        rw [List.length_cons, ih]

theorem slice_sublist {α : Type} (items : List α) (start stop : Int)
    : (slice items start stop).Sublist items := by
  unfold slice
  exact (List.take_sublist _ _).trans (List.drop_sublist _ _)

theorem exists_item?_lines (code : List Char) (offset : Int)
    : ∃ line, item? (lines code) ((Position.of code offset).line - 1) = some line := by
  have hcount := (slice_sublist code 0 offset).count_le '\n'
  have hindex : (slice code 0 offset).count '\n' < (lines code).length := by
    rw [length_lines]
    omega
  have hline : (Position.of code offset).line - 1 = (slice code 0 offset).count '\n' := by
    simp only [Position.of]
    omega
  refine ⟨(lines code)[(slice code 0 offset).count '\n'], ?_⟩
  rw [hline]
  unfold item?
  rw [if_pos (by omega), Int.toNat_natCast]
  exact List.getElem?_eq_getElem hindex

end Text

namespace Source

theorem SyntaxError.exists_diagnostic {error : SyntaxError} {code : String} {offset : Nat}
    {message : String} {more : List Issue} (hcode : error.code = some code)
    (hissues : error.issues = Issue.atOffset code.toList offset message :: more)
    : ∃ diagnostic, error.diagnostic = .ok diagnostic := by
  rcases Text.exists_item?_lines code.toList offset with ⟨line, hline⟩
  simp only [SyntaxError.diagnostic, hcode, hissues, Issue.atOffset, hline]
  exact ⟨_, rfl⟩

theorem Issue.exists_atOffset {code : List Char} {offset : Nat} {pieces : List Piece} {issue : Issue}
    (h : issue ∈ Issue.ofPieces code offset pieces)
    : ∃ (place : Nat) (message : String), issue = Issue.atOffset code place message := by
  induction pieces generalizing offset with
  | nil => simp [ofPieces] at h
  | cons piece rest ih =>
    cases piece with
    | invalid c =>
      simp only [ofPieces, List.mem_cons] at h
      cases h with
      | inl heq => exact ⟨_, _, heq⟩
      | inr hrest => exact ih hrest
    | unclosed text =>
      simp only [ofPieces, List.mem_cons] at h
      cases h with
      | inl heq => exact ⟨_, _, heq⟩
      | inr hrest => exact ih hrest
    | _ => exact ih h

section

variable {α : Type} {reader : List Token → Except Mismatch α} {code : String}

theorem parseWith_eq (reader : List Token → Except Mismatch α) (code : String)
    : parseWith reader code =
      if (tokenize code).issues = [] then
        match reader (tokenize code).tokens with
        | .ok result => .ok result
        | .error mismatch => .error (mismatch.toSyntaxError code)
      else .error { issues := (tokenize code).issues, code := some code, length := 1 } := by
  simp only [parseWith, List.isEmpty_iff]
  cases reader (tokenize code).tokens with
  | ok result => rfl
  | error mismatch => rfl

theorem parseWith_eq_ok_iff (result : α)
    : parseWith reader code = .ok result ↔
      (tokenize code).issues = [] ∧ reader (tokenize code).tokens = .ok result := by
  rw [parseWith_eq]
  split
  · next hnil =>
    cases hread : reader (tokenize code).tokens with
    | ok value => simp [hnil]
    | error mismatch => simp
  · next hcons => simp [hcons]

theorem parseWith_exists_diagnostic {error : SyntaxError}
    (h : parseWith reader code = .error error)
    : ∃ diagnostic, error.diagnostic = .ok diagnostic := by
  rw [parseWith_eq] at h
  split at h
  · cases hread : reader (tokenize code).tokens with
    | ok value => simp [hread] at h
    | error mismatch =>
      simp only [hread, Except.error.injEq, Mismatch.toSyntaxError] at h
      cases hfound : mismatch.found with
      | none =>
        simp only [hfound] at h
        subst h
        exact SyntaxError.exists_diagnostic rfl rfl
      | some token =>
        simp only [hfound] at h
        subst h
        exact SyntaxError.exists_diagnostic rfl rfl
  · next hcons =>
    rw [Except.error.injEq] at h
    subst h
    rcases List.exists_cons_of_ne_nil hcons with ⟨issue, more, hissues⟩
    have hmem : issue ∈ (tokenize code).issues := by
      simp [hissues]
    rcases Issue.exists_atOffset hmem with ⟨offset, message, hissue⟩
    apply SyntaxError.exists_diagnostic
    · rfl
    · rw [← hissue]
      exact hissues

end

/--
A text that divides into the given tokens without an issue.
-/
def Spells (code : String) (tokens : List Token) : Prop :=
  (tokenize code).issues = [] ∧ (tokenize code).tokens = tokens

theorem Spells.unique {code : String} {tokens others : List Token} (h : Spells code tokens)
    (h' : Spells code others) : tokens = others := by
  rw [← h.2, h'.2]

theorem parseTerm_eq_ok_iff (code : String) (term : Term)
    : parseTerm code = .ok term ↔
      ∃ tree : TermTree, Spells code tree.tokens ∧ tree.term = term := by
  unfold parseTerm
  rw [parseWith_eq_ok_iff, readTerm_eq_ok_iff]
  constructor
  · intro h
    rcases h with ⟨hissues, tree, htokens, hterm⟩
    exact ⟨tree, ⟨hissues, htokens.symm⟩, hterm⟩
  · intro h
    rcases h with ⟨tree, hspells, hterm⟩
    exact ⟨hspells.1, tree, hspells.2.symm, hterm⟩

theorem parseStatement_eq_ok_iff (code : String) (statement : Statement)
    : parseStatement code = .ok statement ↔
      (∃ tree : DefinitionTree, Spells code tree.tokens ∧
        .definition tree.definition = statement) ∨
      (∃ tree : TermTree, Spells code tree.tokens ∧ .term tree.term = statement) := by
  unfold parseStatement
  rw [parseWith_eq_ok_iff, readStatement_eq_ok_iff]
  constructor
  · intro h
    rcases h with ⟨hissues, ⟨tree, htokens, hresult⟩ | ⟨tree, htokens, hresult⟩⟩
    · exact Or.inl ⟨tree, ⟨hissues, htokens.symm⟩, hresult⟩
    · exact Or.inr ⟨tree, ⟨hissues, htokens.symm⟩, hresult⟩
  · intro h
    rcases h with ⟨tree, hspells, hresult⟩ | ⟨tree, hspells, hresult⟩
    · exact ⟨hspells.1, Or.inl ⟨tree, hspells.2.symm, hresult⟩⟩
    · exact ⟨hspells.1, Or.inr ⟨tree, hspells.2.symm, hresult⟩⟩

theorem parseBook_eq_ok_iff (code : String) (book : Book)
    : parseBook code = .ok book ↔
      ∃ trees : List DefinitionTree, Spells code (trees.flatMap DefinitionTree.tokens) ∧
        book.Holds (trees.map DefinitionTree.definition) := by
  have hmap : parseBook code = .ok book ↔
      ∃ definitions, parseWith readDefinitions code = .ok definitions ∧
        Book.ofList definitions = book := by
    unfold parseBook
    cases parseWith readDefinitions code with
    | ok definitions => simp [Except.map]
    | error error => simp [Except.map]
  rw [hmap]
  simp only [parseWith_eq_ok_iff, readDefinitions_eq_ok_iff, Book.holds_iff]
  constructor
  · intro h
    rcases h with ⟨definitions, ⟨hissues, trees, htokens, hdefinitions⟩, hbook⟩
    exact ⟨trees, ⟨hissues, htokens.symm⟩, by rw [hdefinitions, hbook]⟩
  · intro h
    rcases h with ⟨trees, hspells, hbook⟩
    exact ⟨_, ⟨hspells.1, trees, hspells.2.symm, rfl⟩, hbook⟩

theorem parseBook_eq_error_iff (code : String) (error : SyntaxError)
    : parseBook code = .error error ↔ parseWith readDefinitions code = .error error := by
  unfold parseBook
  cases parseWith readDefinitions code with
  | ok definitions => simp [Except.map]
  | error other => simp [Except.map]

theorem parseBook_exists_diagnostic {code : String} {error : SyntaxError}
    (h : parseBook code = .error error) : ∃ diagnostic, error.diagnostic = .ok diagnostic :=
  parseWith_exists_diagnostic ((parseBook_eq_error_iff code error).1 h)

theorem refs_of_parseBook {code : String} {book : Book} (h : parseBook code = .ok book)
    : ∀ definition ∈ book.definitions, definition.body.refs = [] := by
  intro definition hmem
  rcases (parseBook_eq_ok_iff code book).1 h with ⟨trees, _, hholds⟩
  rcases List.mem_map.1 (hholds.mem_of_mem hmem) with ⟨tree, _, htree⟩
  rw [← htree]
  exact tree.body.refs_term

theorem refs_of_parseTerm {code : String} {term : Term} (h : parseTerm code = .ok term)
    : term.refs = [] := by
  rcases (parseTerm_eq_ok_iff code term).1 h with ⟨tree, _, hterm⟩
  rw [← hterm]
  exact tree.refs_term

theorem refs_of_parseStatement_definition {code : String} {definition : Definition}
    (h : parseStatement code = .ok (.definition definition)) : definition.body.refs = [] := by
  rcases (parseStatement_eq_ok_iff code _).1 h with ⟨tree, _, hresult⟩ | ⟨tree, _, hresult⟩
  · rw [Statement.definition.injEq] at hresult
    rw [← hresult]
    exact tree.body.refs_term
  · simp at hresult

theorem refs_of_parseStatement_term {code : String} {term : Term}
    (h : parseStatement code = .ok (.term term)) : term.refs = [] := by
  rcases (parseStatement_eq_ok_iff code _).1 h with ⟨tree, _, hresult⟩ | ⟨tree, _, hresult⟩
  · simp at hresult
  · rw [Statement.term.injEq] at hresult
    rw [← hresult]
    exact tree.refs_term

/--
Terms and books are read exactly from the texts that the grammar derives, and to what the one derivation
of the text stands for. Every other text is turned down with a diagnostic.
-/
theorem parse_iff_derivation (code : String)
    : (∀ term, parseTerm code = .ok term ↔
        ∃ tree : TermTree, Spells code tree.tokens ∧ tree.term = term) ∧
      (∀ book, parseBook code = .ok book ↔
        ∃ trees : List DefinitionTree, Spells code (trees.flatMap DefinitionTree.tokens) ∧
          book.Holds (trees.map DefinitionTree.definition)) ∧
      (∀ tree other : TermTree, Spells code tree.tokens → Spells code other.tokens →
        tree = other) ∧
      (∀ trees others : List DefinitionTree, Spells code (trees.flatMap DefinitionTree.tokens) →
        Spells code (others.flatMap DefinitionTree.tokens) → trees = others) ∧
      (∀ term, parseTerm code = .ok term → term.refs = []) ∧
      (∀ book, parseBook code = .ok book →
        ∀ definition ∈ book.definitions, definition.body.refs = []) ∧
      ((∀ tree : TermTree, ¬Spells code tree.tokens) →
        ∃ error diagnostic, parseTerm code = .error error ∧ error.diagnostic = .ok diagnostic) ∧
      ((∀ trees : List DefinitionTree, ¬Spells code (trees.flatMap DefinitionTree.tokens)) →
        ∃ error diagnostic, parseBook code = .error error ∧
          error.diagnostic = .ok diagnostic) := by
  refine ⟨parseTerm_eq_ok_iff code, parseBook_eq_ok_iff code, ?_, ?_, fun _ => refs_of_parseTerm,
    fun _ => refs_of_parseBook, ?_, ?_⟩
  · intro tree other h h'
    exact TermTree.tokens_inj (h.unique h')
  · intro trees others h h'
    exact DefinitionTree.flatMap_tokens_inj (h.unique h')
  · intro hnone
    cases hparse : parseTerm code with
    | ok term =>
      rcases (parseTerm_eq_ok_iff code term).1 hparse with ⟨tree, hspells, _⟩
      exact absurd hspells (hnone tree)
    | error error =>
      rcases parseWith_exists_diagnostic hparse with ⟨diagnostic, hdiagnostic⟩
      exact ⟨error, diagnostic, rfl, hdiagnostic⟩
  · intro hnone
    cases hparse : parseBook code with
    | ok book =>
      rcases (parseBook_eq_ok_iff code book).1 hparse with ⟨trees, hspells, _⟩
      exact absurd hspells (hnone trees)
    | error error =>
      rcases parseBook_exists_diagnostic hparse with ⟨diagnostic, hdiagnostic⟩
      exact ⟨error, diagnostic, rfl, hdiagnostic⟩

end Source

end NamedLambda
