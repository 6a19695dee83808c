import NamedLambda.Proofs.Outline

/-!
This module contains how statements, terms and books agree on what they read. The first two tokens tell
a definition from a term, and from there on a statement is read by the machine for terms.
-/

namespace NamedLambda.Source

theorem readTokens_eq_map {σ α : Type} {next : σ → Token → Except Expected σ}
    {finish : σ → Except Expected α} (embed : TermState → σ) (value : Term → α)
    (hnext : ∀ state token, next (embed state) token = (state.next token).map embed)
    (hfinish : ∀ state : TermState, finish (embed state) = state.finish.map value)
    (state : TermState) (tokens : List Token)
    : readTokens next finish (embed state) tokens =
      (readTokens TermState.next TermState.finish state tokens).map value := by
  induction tokens generalizing state with
  | nil =>
    simp only [readTokens, hfinish]
    cases state.finish <;> rfl
  | cons token rest ih =>
    rw [readTokens_cons, readTokens_cons, hnext]
    cases state.next token with
    | error expected => rfl
    | ok after => exact ih after

/--
The tokens go on as a definition does: a name and then an equals sign.
-/
def BeginsDefinition (tokens : List Token) : Prop :=
  ∃ (name : Terminal .name) (equals : Terminal .equals) (rest : List Token),
    tokens = name.token :: equals.token :: rest

theorem not_beginsDefinition_cons_iff (name : Terminal .name) (rest : List Token)
    : ¬BeginsDefinition (name.token :: rest) ↔ ∀ token ∈ rest.head?, token.kind ≠ .equals := by
  constructor
  · intro h token hhead hkind
    rcases List.head?_eq_some_iff.1 hhead with ⟨more, hrest⟩
    exact h ⟨name, ⟨token, hkind⟩, more, by rw [hrest]⟩
  · intro h hbegins
    rcases hbegins with ⟨_, equals, more, htokens⟩
    rw [List.cons.injEq] at htokens
    exact h equals.token (by simp [htokens.2]) equals.kind_eq

namespace StatementState

theorem read_term_eq_map (tokens : List Token)
    : readTokens next finish (term .start) tokens = (readTerm tokens).map .term :=
  readTokens_eq_map term Statement.term (fun _ _ => rfl) (fun _ => rfl) .start tokens

-- A term that is a name alone is complete, and the end of the input is what either machine expects.
theorem read_named_eq_map (name : Terminal .name) {rest : List Token}
    (h : ∀ token ∈ rest.head?, token.kind ≠ .equals)
    : readTokens next finish (named name.token.text) rest =
      (readTerm (name.token :: rest)).map .term := by
  have hname : TermState.start.next name.token = .ok (.done (.var name.token.text)) := by
    simp [TermState.start, TermState.next, TermState.begin, TermState.supply, name.kind_eq]
  unfold readTerm
  rw [readTokens_cons_of_ok hname]
  cases rest with
  | nil => rfl
  | cons token more =>
    have hkind := h token rfl
    rw [readTokens_cons, readTokens_cons]
    simp [next, TermState.next, Except.map]

end StatementState

theorem readStatement_eq_map {tokens : List Token} (h : ¬BeginsDefinition tokens)
    : readStatement tokens = (readTerm tokens).map .term := by
  unfold readStatement
  cases tokens with
  | nil => rfl
  | cons token rest =>
    by_cases hname : token.kind = .name
    · rw [StatementState.read_name ⟨token, hname⟩]
      apply StatementState.read_named_eq_map
      exact (not_beginsDefinition_cons_iff ⟨token, hname⟩ rest).1 h
    · rw [StatementState.read_start hname]
      exact StatementState.read_term_eq_map (token :: rest)

section

variable {code : String}

theorem parseStatement_eq_map (h : ¬BeginsDefinition (tokenize code).tokens)
    : parseStatement code = (parseTerm code).map .term := by
  unfold parseStatement parseTerm
  rw [parseWith_eq, parseWith_eq, readStatement_eq_map h]
  split
  · cases readTerm (tokenize code).tokens <;> rfl
  · rfl

theorem parseStatement_eq_error_iff (h : ¬BeginsDefinition (tokenize code).tokens)
    (error : SyntaxError) : parseStatement code = .error error ↔ parseTerm code = .error error := by
  rw [parseStatement_eq_map h]
  cases parseTerm code <;> simp [Except.map]

end

theorem parseStatement_eq_term_iff (code : String) (term : Term)
    : parseStatement code = .ok (.term term) ↔ parseTerm code = .ok term := by
  rw [parseStatement_eq_ok_iff, parseTerm_eq_ok_iff]
  simp

theorem parseStatement_eq_definition_iff (code : String) (definition : Definition)
    : parseStatement code = .ok (.definition definition) ↔
      ∃ tree : DefinitionTree, Spells code tree.tokens ∧ tree.definition = definition := by
  rw [parseStatement_eq_ok_iff]
  simp

/--
The ways to read a text agree. A statement is read to a term exactly if the text is read to that term.
It is read to the definition that the text spells, and then the text is a book of that definition alone.
Where the text does not begin as a definition, reading it as a statement and as a term fails alike, with
the same issues and the same diagnostic.
-/
theorem parse_agree (code : String)
    : (∀ term, parseStatement code = .ok (.term term) ↔ parseTerm code = .ok term) ∧
      (∀ definition, parseStatement code = .ok (.definition definition) →
        ∃ book, parseBook code = .ok book ∧ book.definitions = [definition]) ∧
      (∀ tree : DefinitionTree, Spells code tree.tokens →
        parseStatement code = .ok (.definition tree.definition)) ∧
      (¬BeginsDefinition (tokenize code).tokens →
        (∀ error, parseStatement code = .error error ↔ parseTerm code = .error error) ∧
        ∀ error, parseStatement code = .error error →
          ∃ diagnostic, error.diagnostic = .ok diagnostic) := by
  refine ⟨parseStatement_eq_term_iff code, ?_, ?_, ?_⟩
  · intro definition h
    exact ⟨_, parseBook_of_parseStatement h, rfl⟩
  · intro tree hspells
    exact (parseStatement_eq_definition_iff code _).2 ⟨tree, hspells, rfl⟩
  · intro h
    constructor
    · exact parseStatement_eq_error_iff h
    · intro error herror
      exact parseWith_exists_diagnostic herror

end NamedLambda.Source
