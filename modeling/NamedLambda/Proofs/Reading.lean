import NamedLambda.Proofs.Derivation

/-!
This module relates the machines that read tokens to the derivations of the grammar. What a machine
accepts where a term has to begin is the tokens of a term, followed by what it accepts after that term.
-/

namespace NamedLambda.Source

section

variable {σ α : Type} {next : σ → Token → Except Expected σ} {finish : σ → Except Expected α}

theorem readTokens_cons (state : σ) (token : Token) (rest : List Token)
    : readTokens next finish state (token :: rest) =
      match next state token with
      | .ok state => readTokens next finish state rest
      | .error expected => .error { expected, found := some token } := by
  rfl

theorem readTokens_cons_of_ok {state after : σ} {token : Token} (h : next state token = .ok after)
    (rest : List Token)
    : readTokens next finish state (token :: rest) = readTokens next finish after rest := by
  rw [readTokens_cons, h]

/--
A machine that goes through the states of the one for terms until a term is complete.
-/
structure ReadsTerm (next : σ → Token → Except Expected σ) (finish : σ → Except Expected α)
    (embed : TermState → σ) : Prop where
  next_eq : ∀ {state expected}, state.finish = .error expected → ∀ token,
    next (embed state) token = (state.next token).map embed
  finish_eq : ∀ {state expected}, state.finish = .error expected →
    finish (embed state) = .error expected

namespace ReadsTerm

variable {embed : TermState → σ} (machine : ReadsTerm next finish embed)
include machine

theorem step {state after : TermState} {expected : Expected} {token : Token}
    (hfinish : state.finish = .error expected) (h : state.next token = .ok after)
    (rest : List Token)
    : readTokens next finish (embed state) (token :: rest) =
      readTokens next finish (embed after) rest := by
  apply readTokens_cons_of_ok
  rw [machine.next_eq hfinish, h]
  rfl

theorem read_name (name : Terminal .name) (stack : List Frame) (rest : List Token)
    : readTokens next finish (embed (.term stack)) (name.token :: rest) =
      readTokens next finish (embed (.supply (.var name.token.text) stack)) rest := by
  apply machine.step rfl
  simp [TermState.next, TermState.begin, name.kind_eq]

theorem read_lambda (lambda : Terminal .lambda) (binder : BinderTree) (stack : List Frame)
    (rest : List Token)
    : readTokens next finish (embed (.term stack)) (lambda.token :: binder.token :: rest) =
      readTokens next finish (embed (.term (.body binder.binder :: stack))) rest := by
  have hlambda : (TermState.term stack).next lambda.token = .ok (.binder stack) := by
    simp [TermState.next, TermState.begin, lambda.kind_eq]
  have hbinder : (TermState.binder stack).next binder.token =
      .ok (.term (.body binder.binder :: stack)) := by
    cases binder with
    | named name => simp [TermState.next, BinderTree.token, BinderTree.binder, name.kind_eq]
    | erased star => simp [TermState.next, BinderTree.token, BinderTree.binder, star.kind_eq]
  rw [machine.step rfl hlambda, machine.step rfl hbinder]

theorem read_leftParen (left : Terminal .leftParen) (stack : List Frame) (rest : List Token)
    : readTokens next finish (embed (.term stack)) (left.token :: rest) =
      readTokens next finish (embed (.term (.function :: stack))) rest := by
  apply machine.step rfl
  simp [TermState.next, TermState.begin, left.kind_eq]

theorem read_rightParen (right : Terminal .rightParen) (application : Term) (stack : List Frame)
    (rest : List Token)
    : readTokens next finish (embed (.more application stack)) (right.token :: rest) =
      readTokens next finish (embed (.supply application stack)) rest := by
  apply machine.step rfl
  simp [TermState.next, right.kind_eq]

-- After a complete application any other token has to begin a further argument.
theorem read_more {token : Token} (h : token.kind ≠ .rightParen) (application : Term)
    (stack : List Frame) (rest : List Token)
    : readTokens next finish (embed (.more application stack)) (token :: rest) =
      readTokens next finish (embed (.term (.argument application :: stack))) (token :: rest) := by
  have heq : (TermState.more application stack).next token =
      (TermState.term (.argument application :: stack)).next token := by
    simp only [TermState.next]
  rw [readTokens_cons, readTokens_cons, machine.next_eq rfl, machine.next_eq rfl, heq]

end ReadsTerm

/-!
A derivation is read to its term, whatever the machine waits for and whatever follows.
-/

variable {embed : TermState → σ}

mutual

theorem TermTree.read (machine : ReadsTerm next finish embed)
    : ∀ (tree : TermTree) (stack : List Frame) (rest : List Token),
      readTokens next finish (embed (.term stack)) (tree.tokens ++ rest) =
        readTokens next finish (embed (.supply tree.term stack)) rest
  | .name name, stack, rest => by
    simp only [TermTree.tokens, TermTree.term, List.cons_append, List.nil_append]
    rw [machine.read_name]
  | .abstraction lambda binder body, stack, rest => by
    simp only [TermTree.tokens, TermTree.term, List.cons_append]
    rw [machine.read_lambda, body.read machine]
    rfl
  | .application left function arguments right, stack, rest => by
    simp only [TermTree.tokens, TermTree.term, List.cons_append, List.append_assoc,
      List.nil_append]
    rw [machine.read_leftParen, function.read machine]
    exact arguments.read machine function.term stack right rest

theorem ArgumentsTree.read (machine : ReadsTerm next finish embed)
    : ∀ (tree : ArgumentsTree) (function : Term) (stack : List Frame)
      (right : Terminal .rightParen) (rest : List Token),
      readTokens next finish (embed (.term (.argument function :: stack)))
          (tree.tokens ++ right.token :: rest) =
        readTokens next finish (embed (.supply (tree.applied function) stack)) rest
  | .one argument, function, stack, right, rest => by
    simp only [ArgumentsTree.tokens, ArgumentsTree.applied]
    rw [argument.read machine]
    exact machine.read_rightParen right _ stack rest
  | .more argument others, function, stack, right, rest => by
    simp only [ArgumentsTree.tokens, ArgumentsTree.applied, List.append_assoc]
    rw [argument.read machine, ← others.read machine _ stack right rest]
    rcases others.exists_tokens_eq_cons with ⟨token, more, htokens, hkind⟩
    rw [htokens, List.cons_append]
    exact machine.read_more hkind _ stack _

end

/-!
Conversely, the tokens that are accepted where a term has to begin are those of a derivation. The proof is
by induction on their number, for terms and arguments at once: a parenthesis asks for a term and then for
arguments, and arguments begin with a term.
-/

variable (next finish embed) in
/--
Of up to `size` tokens, those that are accepted where a term has to begin start with a term.
-/
def TermsUpTo (size : Nat) : Prop :=
  ∀ (tokens : List Token) (stack : List Frame) (result : α), tokens.length ≤ size →
    readTokens next finish (embed (.term stack)) tokens = .ok result →
    ∃ (tree : TermTree) (rest : List Token), tokens = tree.tokens ++ rest ∧
      readTokens next finish (embed (.supply tree.term stack)) rest = .ok result

variable (next finish embed) in
/--
Of up to `size` tokens, those that are accepted where arguments have to begin start with arguments and
a closing parenthesis.
-/
def ArgumentsUpTo (size : Nat) : Prop :=
  ∀ (tokens : List Token) (function : Term) (stack : List Frame) (result : α),
    tokens.length ≤ size →
    readTokens next finish (embed (.term (.argument function :: stack))) tokens = .ok result →
    ∃ (tree : ArgumentsTree) (right : Terminal .rightParen) (rest : List Token),
      tokens = tree.tokens ++ right.token :: rest ∧
      readTokens next finish (embed (.supply (tree.applied function) stack)) rest = .ok result

namespace ReadsTerm

variable (machine : ReadsTerm next finish embed)
include machine

theorem exists_cons {state : TermState} {expected : Expected} {tokens : List Token} {result : α}
    (hfinish : state.finish = .error expected)
    (h : readTokens next finish (embed state) tokens = .ok result)
    : ∃ token rest after, tokens = token :: rest ∧ state.next token = .ok after ∧
        readTokens next finish (embed after) rest = .ok result := by
  cases tokens with
  | nil => simp [readTokens, machine.finish_eq hfinish] at h
  | cons token rest =>
    rw [readTokens_cons, machine.next_eq hfinish] at h
    cases hnext : state.next token with
    | error expected => simp [hnext, Except.map] at h
    | ok after =>
      simp only [hnext, Except.map] at h
      exact ⟨token, rest, after, rfl, hnext, h⟩

theorem exists_binder {stack : List Frame} {tokens : List Token} {result : α}
    (h : readTokens next finish (embed (.binder stack)) tokens = .ok result)
    : ∃ (binder : BinderTree) (rest : List Token), tokens = binder.token :: rest ∧
        readTokens next finish (embed (.term (.body binder.binder :: stack))) rest = .ok result := by
  rcases machine.exists_cons rfl h with ⟨token, rest, after, htokens, hnext, hrest⟩
  simp only [TermState.next] at hnext
  split at hnext
  · next hkind =>
    rw [Except.ok.injEq] at hnext
    refine ⟨.erased ⟨token, hkind⟩, rest, htokens, ?_⟩
    simp only [BinderTree.binder]
    rw [hnext]
    exact hrest
  · next hkind =>
    rw [Except.ok.injEq] at hnext
    refine ⟨.named ⟨token, hkind⟩, rest, htokens, ?_⟩
    simp only [BinderTree.binder]
    rw [hnext]
    exact hrest
  · simp at hnext

theorem upTo_zero
    : TermsUpTo next finish embed 0 ∧ ArgumentsUpTo next finish embed 0 := by
  constructor
  · intro tokens stack result hsize h
    rcases machine.exists_cons rfl h with ⟨token, rest, after, htokens, _⟩
    simp [htokens] at hsize
  · intro tokens function stack result hsize h
    rcases machine.exists_cons rfl h with ⟨token, rest, after, htokens, _⟩
    simp [htokens] at hsize

theorem termsUpTo_succ {size : Nat} (hterm : TermsUpTo next finish embed size)
    (harguments : ArgumentsUpTo next finish embed size)
    : TermsUpTo next finish embed (size + 1) := by
  intro tokens stack result hsize h
  rcases machine.exists_cons rfl h with ⟨token, rest, after, htokens, hnext, hrest⟩
  subst htokens
  rw [List.length_cons] at hsize
  simp only [TermState.next, TermState.begin] at hnext
  split at hnext
  · next hkind =>
    rw [Except.ok.injEq] at hnext
    refine ⟨.name ⟨token, hkind⟩, rest, by simp [TermTree.tokens], ?_⟩
    simp only [TermTree.term]
    rw [hnext]
    exact hrest
  · next hkind =>
    rw [Except.ok.injEq] at hnext
    rw [← hnext] at hrest
    rcases machine.exists_binder hrest with ⟨binder, others, hothers, hread⟩
    subst hothers
    rw [List.length_cons] at hsize
    rcases hterm others _ result (by omega) hread with ⟨body, others', hbody, hread⟩
    refine ⟨.abstraction ⟨token, hkind⟩ binder body, others', ?_, ?_⟩
    · simp [TermTree.tokens, hbody]
    · simpa only [TermTree.term, TermState.supply] using hread
  · next hkind =>
    rw [Except.ok.injEq] at hnext
    rw [← hnext] at hrest
    rcases hterm rest _ result (by omega) hrest with ⟨function, others, hfunction, hread⟩
    subst hfunction
    rw [List.length_append] at hsize
    rcases harguments others _ _ result (by omega) hread with
      ⟨arguments, right, others', harguments, hread⟩
    refine ⟨.application ⟨token, hkind⟩ function arguments right, others', ?_, ?_⟩
    · simp [TermTree.tokens, harguments]
    · simpa only [TermTree.term] using hread
  · simp at hnext

theorem argumentsUpTo_succ {size : Nat} (hterm : TermsUpTo next finish embed (size + 1))
    (harguments : ArgumentsUpTo next finish embed size)
    : ArgumentsUpTo next finish embed (size + 1) := by
  intro tokens function stack result hsize h
  rcases hterm tokens _ result hsize h with ⟨argument, rest, htokens, hread⟩
  subst htokens
  rw [TermState.supply] at hread
  rcases machine.exists_cons rfl hread with ⟨token, others, after, hrest, _⟩
  subst hrest
  by_cases hkind : token.kind = .rightParen
  · rw [machine.read_rightParen ⟨token, hkind⟩] at hread
    refine ⟨.one argument, ⟨token, hkind⟩, others, by simp [ArgumentsTree.tokens], ?_⟩
    simpa only [ArgumentsTree.applied] using hread
  · rw [machine.read_more hkind] at hread
    have hshort : (token :: others).length ≤ size := by
      rcases argument.exists_tokens_eq_cons with ⟨first, more, hfirst, _⟩
      rw [hfirst, List.length_append, List.length_cons] at hsize
      omega
    rcases harguments _ _ stack result hshort hread with
      ⟨arguments, right, others', hmore, hread⟩
    refine ⟨.more argument arguments, right, others', ?_, ?_⟩
    · simp [ArgumentsTree.tokens, hmore]
    · simpa only [ArgumentsTree.applied] using hread

theorem termsUpTo (size : Nat) : TermsUpTo next finish embed size := by
  have hboth : TermsUpTo next finish embed size ∧ ArgumentsUpTo next finish embed size := by
    induction size with
    | zero => exact machine.upTo_zero
    | succ size ih =>
      have hterm := machine.termsUpTo_succ ih.1 ih.2
      exact ⟨hterm, machine.argumentsUpTo_succ hterm ih.2⟩
  exact hboth.1

theorem read_eq_ok_iff (stack : List Frame) (tokens : List Token) (result : α)
    : readTokens next finish (embed (.term stack)) tokens = .ok result ↔
      ∃ (tree : TermTree) (rest : List Token), tokens = tree.tokens ++ rest ∧
        readTokens next finish (embed (.supply tree.term stack)) rest = .ok result := by
  constructor
  · exact machine.termsUpTo tokens.length tokens stack result (Nat.le_refl _)
  · intro h
    rcases h with ⟨tree, rest, htokens, hread⟩
    rw [htokens, tree.read machine]
    exact hread

theorem read_whole_eq_ok_iff {value : Term → α}
    (hnext : ∀ term token, ∃ expected, next (embed (.done term)) token = .error expected)
    (hfinish : ∀ term, finish (embed (.done term)) = .ok (value term)) (tokens : List Token)
    (result : α)
    : readTokens next finish (embed (.term [])) tokens = .ok result ↔
      ∃ tree : TermTree, tree.tokens = tokens ∧ value tree.term = result := by
  rw [machine.read_eq_ok_iff]
  constructor
  · intro h
    rcases h with ⟨tree, rest, htokens, hread⟩
    rw [TermState.supply] at hread
    cases rest with
    | nil =>
      refine ⟨tree, by simp [htokens], ?_⟩
      simpa [readTokens, hfinish] using hread
    | cons token more =>
      rcases hnext tree.term token with ⟨expected, herror⟩
      simp [readTokens_cons, herror] at hread
  · intro h
    rcases h with ⟨tree, htokens, hresult⟩
    refine ⟨tree, [], by simp [htokens], ?_⟩
    simp [TermState.supply, readTokens, hfinish, hresult]

end ReadsTerm

end

/-!
The machines for terms, books and statements accept exactly what the grammar derives.
-/

theorem TermState.readsTerm : ReadsTerm TermState.next TermState.finish id where
  next_eq := by
    intro state expected _ token
    rw [id_def]
    cases state.next token <;> rfl
  finish_eq := by
    intro state expected h
    exact h

theorem BookState.readsTerm (definitions : List Definition) (name : String)
    : ReadsTerm BookState.next BookState.finish (BookState.ofBody definitions name) where
  next_eq := by
    intro state expected h token
    cases state with
    | done result => simp [TermState.finish] at h
    | _ => rfl
  finish_eq := by
    intro state expected h
    cases state with
    | done result => simp [TermState.finish] at h
    | _ => simpa [BookState.ofBody, BookState.finish, TermState.finish, Except.map] using h

theorem StatementState.readsTerm_body (name : String)
    : ReadsTerm StatementState.next StatementState.finish (StatementState.body name) where
  next_eq := by
    intro state expected h token
    rfl
  finish_eq := by
    intro state expected h
    simp [StatementState.finish, h, Except.map]

theorem StatementState.readsTerm_term
    : ReadsTerm StatementState.next StatementState.finish StatementState.term where
  next_eq := by
    intro state expected h token
    rfl
  finish_eq := by
    intro state expected h
    simp [StatementState.finish, h, Except.map]

theorem readTerm_eq_ok_iff (tokens : List Token) (term : Term)
    : readTerm tokens = .ok term ↔ ∃ tree : TermTree, tree.tokens = tokens ∧ tree.term = term :=
  TermState.readsTerm.read_whole_eq_ok_iff (fun _ _ => ⟨_, rfl⟩) (fun _ => rfl) tokens term

theorem BookState.read_header (definitions : List Definition) (name : Terminal .name)
    (equals : Terminal .equals) (rest : List Token)
    : readTokens next finish (ready definitions) (name.token :: equals.token :: rest) =
      readTokens next finish (ofBody definitions name.token.text (.term [])) rest := by
  have hname : next (ready definitions) name.token = .ok (named definitions name.token.text) := by
    simp [next, name.kind_eq]
  have hequals : next (named definitions name.token.text) equals.token =
      .ok (ofBody definitions name.token.text (.term [])) := by
    simp [next, equals.kind_eq, ofBody, TermState.start]
  rw [readTokens_cons_of_ok hname, readTokens_cons_of_ok hequals]

theorem BookState.exists_header {definitions result : List Definition} {token : Token}
    {tokens : List Token}
    (h : readTokens next finish (ready definitions) (token :: tokens) = .ok result)
    : ∃ (name : Terminal .name) (equals : Terminal .equals) (rest : List Token),
        token :: tokens = name.token :: equals.token :: rest := by
  by_cases hname : token.kind = .name
  · have hnext : next (ready definitions) token = .ok (named definitions token.text) := by
      simp [next, hname]
    rw [readTokens_cons_of_ok hnext] at h
    cases tokens with
    | nil => simp [readTokens, finish] at h
    | cons second rest =>
      by_cases hequals : second.kind = .equals
      · exact ⟨⟨token, hname⟩, ⟨second, hequals⟩, rest, rfl⟩
      · simp [readTokens_cons, next] at h
  · simp [readTokens_cons, next] at h

theorem BookState.read_eq_ok_iff (tokens : List Token) (definitions result : List Definition)
    : readTokens next finish (ready definitions) tokens = .ok result ↔
      ∃ trees : List DefinitionTree, trees.flatMap DefinitionTree.tokens = tokens ∧
        definitions ++ trees.map DefinitionTree.definition = result := by
  constructor
  · -- The tokens after the first definition are fewer.
    induction hsize : tokens.length using Nat.strongRecOn generalizing tokens definitions with
    | ind size ih =>
      intro h
      cases tokens with
      | nil =>
        simp only [readTokens, finish, Except.ok.injEq] at h
        exact ⟨[], rfl, by simp [h]⟩
      | cons token tokens =>
        rcases exists_header h with ⟨name, equals, rest, htokens⟩
        rw [htokens, read_header, (readsTerm definitions name.token.text).read_eq_ok_iff] at h
        rcases h with ⟨body, others, hrest, hread⟩
        simp only [TermState.supply, ofBody] at hread
        have hshort : others.length < size := by
          rw [htokens, hrest] at hsize
          simp only [List.length_cons, List.length_append] at hsize
          omega
        rcases ih others.length hshort others _ rfl hread with ⟨trees, htrees, hresult⟩
        refine ⟨⟨name, equals, body⟩ :: trees, ?_, ?_⟩
        · rw [List.flatMap_cons, htrees, htokens, hrest]
          simp [DefinitionTree.tokens]
        · rw [← hresult]
          simp [DefinitionTree.definition]
  · intro h
    rcases h with ⟨trees, htokens, hresult⟩
    subst htokens
    induction trees generalizing definitions with
    | nil => simpa [readTokens, finish] using hresult
    | cons tree trees ih =>
      rw [List.flatMap_cons]
      simp only [DefinitionTree.tokens, List.cons_append]
      rw [read_header, tree.body.read (readsTerm definitions tree.name.token.text)]
      apply ih
      rw [← hresult]
      simp [DefinitionTree.definition]

theorem readDefinitions_eq_ok_iff (tokens : List Token) (definitions : List Definition)
    : readDefinitions tokens = .ok definitions ↔
      ∃ trees : List DefinitionTree, trees.flatMap DefinitionTree.tokens = tokens ∧
        trees.map DefinitionTree.definition = definitions := by
  unfold readDefinitions BookState.start
  rw [BookState.read_eq_ok_iff]
  simp

namespace StatementState

-- Only a name leaves open whether a definition or a term is read.
theorem read_start {token : Token} (h : token.kind ≠ .name) (rest : List Token)
    : readTokens next finish start (token :: rest) =
      readTokens next finish (term (.term [])) (token :: rest) := by
  rw [readTokens_cons, readTokens_cons]
  simp [next, TermState.start]

theorem read_name (name : Terminal .name) (rest : List Token)
    : readTokens next finish start (name.token :: rest) =
      readTokens next finish (named name.token.text) rest := by
  apply readTokens_cons_of_ok
  simp [next, name.kind_eq]

theorem read_equals (name : String) (equals : Terminal .equals) (rest : List Token)
    : readTokens next finish (named name) (equals.token :: rest) =
      readTokens next finish (body name (.term [])) rest := by
  apply readTokens_cons_of_ok
  simp [next, equals.kind_eq, TermState.start]

theorem read_body_eq_ok_iff (name : String) (tokens : List Token) (statement : Statement)
    : readTokens next finish (body name (.term [])) tokens = .ok statement ↔
      ∃ tree : TermTree, tree.tokens = tokens ∧
        .definition { name, body := tree.term } = statement :=
  (readsTerm_body name).read_whole_eq_ok_iff (fun _ _ => ⟨_, rfl⟩) (fun _ => rfl) tokens statement

theorem read_term_eq_ok_iff (tokens : List Token) (statement : Statement)
    : readTokens next finish (term (.term [])) tokens = .ok statement ↔
      ∃ tree : TermTree, tree.tokens = tokens ∧ .term tree.term = statement :=
  readsTerm_term.read_whole_eq_ok_iff (fun _ _ => ⟨_, rfl⟩) (fun _ => rfl) tokens statement

end StatementState

theorem readStatement_eq_ok_iff (tokens : List Token) (statement : Statement)
    : readStatement tokens = .ok statement ↔
      (∃ tree : DefinitionTree, tree.tokens = tokens ∧ .definition tree.definition = statement) ∨
      (∃ tree : TermTree, tree.tokens = tokens ∧ .term tree.term = statement) := by
  unfold readStatement
  constructor
  · intro h
    cases tokens with
    | nil => simp [readTokens, StatementState.finish] at h
    | cons token rest =>
      by_cases hname : token.kind = .name
      · rw [StatementState.read_name ⟨token, hname⟩] at h
        cases rest with
        | nil =>
          simp only [readTokens, StatementState.finish, Except.ok.injEq] at h
          exact Or.inr ⟨.name ⟨token, hname⟩, by rw [TermTree.tokens], by rw [TermTree.term, h]⟩
        | cons second more =>
          by_cases hequals : second.kind = .equals
          · rw [StatementState.read_equals _ ⟨second, hequals⟩,
              StatementState.read_body_eq_ok_iff] at h
            rcases h with ⟨tree, htokens, hresult⟩
            refine Or.inl ⟨⟨⟨token, hname⟩, ⟨second, hequals⟩, tree⟩, ?_, hresult⟩
            rw [DefinitionTree.tokens, htokens]
          · simp [readTokens_cons, StatementState.next] at h
      · rw [StatementState.read_start hname, StatementState.read_term_eq_ok_iff] at h
        exact Or.inr h
  · intro h
    cases h with
    | inl h =>
      rcases h with ⟨tree, htokens, hresult⟩
      rw [← htokens, DefinitionTree.tokens, StatementState.read_name, StatementState.read_equals,
        StatementState.read_body_eq_ok_iff]
      exact ⟨tree.body, rfl, hresult⟩
    | inr h =>
      rcases h with ⟨tree, htokens, hresult⟩
      rw [← htokens]
      cases tree with
      | name name =>
        rw [TermTree.tokens, StatementState.read_name]
        rw [TermTree.term] at hresult
        simp [readTokens, StatementState.finish, hresult]
      | abstraction lambda binder body =>
        rw [TermTree.tokens, StatementState.read_start (by simp [lambda.kind_eq]),
          StatementState.read_term_eq_ok_iff]
        exact ⟨.abstraction lambda binder body, by rw [TermTree.tokens], hresult⟩
      | application left function arguments right =>
        rw [TermTree.tokens, StatementState.read_start (by simp [left.kind_eq]),
          StatementState.read_term_eq_ok_iff]
        exact ⟨.application left function arguments right, by rw [TermTree.tokens], hresult⟩

end NamedLambda.Source
