import NamedLambda.Proofs.Division
import NamedLambda.Proofs.Parsing

/-!
This module contains the outline of a text: its pieces with their offsets, without blanks and closed
comments. The outline of texts that are joined by a newline is that of the one text followed by that of
the other. What a text is read to depends on the pieces of its outline alone.
-/

namespace NamedLambda.Source

namespace Piece

def isSilent : Piece → Bool
  | blank _ => true
  | lineComment _ => true
  | blockComment _ => true
  | _ => false

theorem Fits.append_newline {piece : Piece} {rest : List Char} (h : piece.Fits rest)
    (hclosed : ∀ text, piece ≠ Piece.unclosed text) (hblank : ∀ text, piece ≠ Piece.blank text)
    (more : List Char) : piece.Fits (rest ++ '\n' :: more) := by
  cases rest with
  | cons d rest =>
    apply h.of_head? hclosed
    intro e he
    exact he
  | nil =>
    have hhead : ∀ d ∈ ([] ++ '\n' :: more).head?, d = '\n' := by
      intro d hd
      exact (Option.some.inj hd).symm
    cases h with
    | token hmatches =>
      apply Fits.token hmatches
      intro _ d hd
      rw [hhead d hd]
      decide
    | blank => exact absurd rfl (hblank _)
    | lineComment hline => exact .lineComment hline hhead
    | blockComment h => exact .blockComment h
    | invalid hkind hplain =>
      apply Fits.invalid hkind hplain
      intro _ d hd
      rw [hhead d hd]
      decide
    | unclosed => exact absurd rfl (hclosed _)

-- Only a run of blanks goes on over a newline.
theorem next_append_newline {c : Char} {rest : List Char} (hblank : isBlank c = false)
    (hclosed : ∀ text, (next c rest).1 ≠ unclosed text) (more : List Char)
    : next c (rest ++ '\n' :: more) = ((next c rest).1, (next c rest).2 ++ '\n' :: more) := by
  have hfits := next_fits c rest
  have htext := next_append c rest
  have hplain : ∀ text, (next c rest).1 ≠ blank text := by
    intro text hpiece
    rw [hpiece] at hfits htext
    cases hfits with
    | blank hne hall =>
      rcases List.exists_cons_of_ne_nil hne with ⟨d, others, heq⟩
      subst heq
      simp only [Piece.text, List.cons_append, List.cons.injEq] at htext
      simp [htext.1, hblank] at hall
  apply (hfits.append_newline hclosed hplain more).next_eq
  rw [← List.append_assoc, htext, List.cons_append]

end Piece

/--
The pieces that are no blanks and no closed comments, each with its offset, where the first piece begins
at `offset`.
-/
def outline (offset : Nat) : List Piece → List (Nat × Piece)
  | [] => []
  | piece :: rest =>
    if piece.isSilent then outline (offset + piece.text.length) rest
    else (offset, piece) :: outline (offset + piece.text.length) rest

def words (text : List Char) : List Piece :=
  (pieces text).filter (fun piece => !piece.isSilent)

theorem map_snd_outline (offset : Nat) (pieces : List Piece)
    : (outline offset pieces).map Prod.snd = pieces.filter (fun piece => !piece.isSilent) := by
  induction pieces generalizing offset with
  | nil => rfl
  | cons piece rest ih =>
    unfold outline
    split
    · next h => simp [h, ih]
    · next h => simp [h, ih]

theorem outline_blank {c : Char} (h : Piece.isBlank c = true) (rest : List Char) (offset : Nat)
    : outline offset (pieces (c :: rest)) = outline (offset + 1) (pieces rest) := by
  have hrun : ∀ more place, outline place (pieces more) =
      outline (place + (more.takeWhile Piece.isBlank).length) (pieces (more.dropWhile Piece.isBlank)) := by
    intro more place
    cases more with
    | nil => rfl
    | cons d more =>
      cases hd : Piece.isBlank d with
      | true =>
        rw [pieces_cons, Piece.next_blank hd, List.takeWhile_cons_of_pos hd,
          List.dropWhile_cons_of_pos hd]
        rfl
      | false =>
        rw [List.takeWhile_cons_of_neg (by simp [hd]), List.dropWhile_cons_of_neg (by simp [hd])]
        rfl
  rw [hrun (c :: rest), hrun rest, List.takeWhile_cons_of_pos h, List.dropWhile_cons_of_pos h,
    List.length_cons]
  congr 1
  omega

theorem words_blank {c : Char} (h : Piece.isBlank c = true) (rest : List Char)
    : words (c :: rest) = words rest := by
  unfold words
  rw [← map_snd_outline 0, outline_blank h, map_snd_outline]

theorem words_symbol {c : Char} {kind : Kind} (h : Piece.symbol? c = some kind) (rest : List Char)
    : words (c :: rest) = .token kind [c] :: words rest := by
  unfold words
  rw [pieces_cons, Piece.next_symbol h]
  rfl

-- A name ends where a character follows that cannot be part of it.
theorem words_name {c : Char} {others rest : List Char} (hstart : Piece.isNameStart c = true)
    (hothers : ∀ d ∈ others, Piece.isNameChar d = true)
    (hrest : ∀ d ∈ rest.head?, Piece.isNameChar d = false)
    : words (c :: others ++ rest) = .token .name (c :: others) :: words rest := by
  unfold words
  rw [List.cons_append, pieces_cons, Piece.next_name hstart,
    Piece.takeWhile_append_rest hothers hrest, Piece.dropWhile_append_rest hothers hrest]
  rfl

theorem outline_append_newline (left right : List Char) (h : ∀ text, .unclosed text ∉ words left)
    (offset : Nat)
    : outline offset (pieces (left ++ '\n' :: right)) =
      outline offset (pieces left) ++ outline (offset + left.length + 1) (pieces right) := by
  induction hsize : left.length using Nat.strongRecOn generalizing left offset with
  | ind size ih =>
    cases left with
    | nil =>
      rw [List.nil_append, outline_blank (by decide), pieces_nil, ← hsize]
      rfl
    | cons c rest =>
      rw [List.length_cons] at hsize
      cases hblank : Piece.isBlank c with
      | true =>
        rw [words_blank hblank] at h
        rw [List.cons_append, outline_blank hblank, outline_blank hblank,
          ih rest.length (by omega) rest h (offset + 1) rfl]
        congr 2
        omega
      | false =>
        have hclosed : ∀ text, (Piece.next c rest).1 ≠ .unclosed text := by
          intro text heq
          apply h text
          unfold words
          rw [pieces_cons, heq]
          simp [Piece.isSilent]
        have hrest : ∀ text, .unclosed text ∉ words (Piece.next c rest).2 := by
          intro text hmem
          apply h text
          unfold words at hmem ⊢
          rw [pieces_cons, List.filter_cons]
          split
          · exact List.mem_cons_of_mem _ hmem
          · exact hmem
        have hshort := Piece.length_next_lt c rest
        have hlength := congrArg List.length (Piece.next_append c rest)
        rw [List.length_append] at hlength
        rw [List.length_cons] at hshort hlength
        have hend : offset + (Piece.next c rest).1.text.length + (Piece.next c rest).2.length + 1 =
            offset + size + 1 := by
          omega
        have htail := ih _ (by omega) _ hrest (offset + (Piece.next c rest).1.text.length) rfl
        rw [hend] at htail
        rw [List.cons_append, pieces_cons, Piece.next_append_newline hblank hclosed, pieces_cons]
        simp only [outline, htail]
        split
        · rfl
        · rw [List.cons_append]

def Token.piece (token : Token) : Piece :=
  .token token.kind token.text.toList

theorem Token.piece_eq_iff (token other : Token)
    : token.piece = other.piece ↔ token.kind = other.kind ∧ token.text = other.text := by
  simp [piece, String.toList_inj]

theorem Token.placed_eq_iff (token : Token) (kind : Kind) (text : List Char) (offset : Nat)
    : (offset, .token kind text) = (token.offset, token.piece) ↔
      { kind, text := String.ofList text, offset } = token := by
  cases token with
  | mk kind' text' offset' =>
    simp only [piece, Prod.mk.injEq, Piece.token.injEq, mk.injEq]
    constructor
    · intro h
      rw [h.2.2, String.ofList_toList]
      exact ⟨h.2.1, rfl, h.1⟩
    · intro h
      rw [← h.2.1, String.toList_ofList]
      exact ⟨h.2.2, h.1, rfl⟩

theorem outline_eq_map_iff (code : List Char) (offset : Nat) (pieces : List Piece)
    (tokens : List Token)
    : outline offset pieces = tokens.map (fun token => (token.offset, token.piece)) ↔
      Issue.ofPieces code offset pieces = [] ∧ Token.ofPieces offset pieces = tokens := by
  induction pieces generalizing offset tokens with
  | nil =>
    simp only [outline, Issue.ofPieces, Token.ofPieces, true_and]
    rw [eq_comm, List.map_eq_nil_iff, eq_comm]
  | cons piece rest ih =>
    have hother : ∀ piece : Piece, (∀ kind text, piece ≠ .token kind text) →
        (offset, piece) :: outline (offset + piece.text.length) rest ≠
          tokens.map (fun token => (token.offset, token.piece)) := by
      intro piece hpiece heq
      have hmem : (offset, piece) ∈ tokens.map (fun token => (token.offset, token.piece)) := by
        rw [← heq]
        exact List.mem_cons_self
      rcases List.mem_map.1 hmem with ⟨token, _, htoken⟩
      rw [Prod.mk.injEq] at htoken
      exact hpiece _ _ htoken.2.symm
    cases piece with
    | token kind text =>
      simp only [outline, Piece.isSilent, Bool.false_eq_true, if_false, Issue.ofPieces, Token.ofPieces]
      cases tokens with
      | nil => simp
      | cons token tokens =>
        rw [List.map_cons, List.cons.injEq, ih, List.cons.injEq, Token.placed_eq_iff, and_left_comm]
    | invalid c => simpa [Issue.ofPieces, outline, Piece.isSilent] using hother (.invalid c) (by simp)
    | unclosed text => simpa [Issue.ofPieces, outline, Piece.isSilent] using hother (.unclosed text) (by simp)
    | blank text => exact ih _ _
    | lineComment text => exact ih _ _
    | blockComment text => exact ih _ _

theorem spells_iff (code : String) (tokens : List Token)
    : Spells code tokens ↔
      outline 0 (pieces code.toList) = tokens.map (fun token => (token.offset, token.piece)) :=
  (outline_eq_map_iff code.toList 0 (pieces code.toList) tokens).symm

theorem Spells.words_eq {code : String} {tokens : List Token} (h : Spells code tokens)
    : words code.toList = tokens.map Token.piece := by
  unfold words
  rw [← map_snd_outline 0, (spells_iff code tokens).1 h, List.map_map]
  rfl

theorem exists_map_placed {places : List (Nat × Piece)} {others : List Token}
    (h : places.map Prod.snd = others.map Token.piece)
    : ∃ tokens : List Token, places = tokens.map (fun token => (token.offset, token.piece)) ∧
        tokens.map Token.piece = others.map Token.piece := by
  induction places generalizing others with
  | nil =>
    rw [List.map_nil] at h
    exact ⟨[], rfl, h⟩
  | cons place places ih =>
    cases others with
    | nil => simp at h
    | cons other others =>
      rw [List.map_cons, List.map_cons, List.cons.injEq] at h
      rcases ih h.2 with ⟨tokens, htokens, hpieces⟩
      refine ⟨{ other with offset := place.1 } :: tokens, ?_, ?_⟩
      · rw [List.map_cons, ← htokens, List.cons.injEq]
        exact ⟨Prod.ext rfl h.1, rfl⟩
      · rw [List.map_cons, List.map_cons, hpieces]
        rfl

theorem exists_spells {code : String} {others : List Token}
    (h : words code.toList = others.map Token.piece)
    : ∃ tokens, Spells code tokens ∧ tokens.map Token.piece = others.map Token.piece := by
  unfold words at h
  rw [← map_snd_outline 0] at h
  rcases exists_map_placed h with ⟨tokens, htokens, hpieces⟩
  exact ⟨tokens, (spells_iff code tokens).2 htokens, hpieces⟩

theorem Spells.closed {code : String} {tokens : List Token} (h : Spells code tokens)
    : ∀ rest, .unclosed rest ∉ words code.toList := by
  intro rest hmem
  rw [h.words_eq] at hmem
  rcases List.mem_map.1 hmem with ⟨token, _, htoken⟩
  simp [Token.piece] at htoken

theorem Spells.append_newline {code more : String} {tokens others : List Token}
    (h : Spells code tokens) (hmore : words more.toList = others.map Token.piece)
    : ∃ added, Spells (code ++ "\n" ++ more) (tokens ++ added) ∧
        added.map Token.piece = others.map Token.piece := by
  unfold words at hmore
  rw [← map_snd_outline (0 + code.toList.length + 1)] at hmore
  rcases exists_map_placed hmore with ⟨added, hadded, hpieces⟩
  have htext : (code ++ "\n" ++ more).toList = code.toList ++ '\n' :: more.toList := by
    simp
  refine ⟨added, ?_, hpieces⟩
  rw [spells_iff, htext, outline_append_newline _ _ h.closed, (spells_iff code tokens).1 h, hadded,
    List.map_append]

/-!
The machines look at kinds and texts only.
-/

theorem TermState.next_congr {token other : Token} (h : token.piece = other.piece) (state : TermState)
    : state.next token = state.next other := by
  rw [Token.piece_eq_iff] at h
  cases state with
  | term stack => simp only [next, begin, h]
  | binder stack => simp only [next, h]
  | more application stack => simp only [next, begin, h]
  | done result => rfl

theorem BookState.next_congr {token other : Token} (h : token.piece = other.piece) (state : BookState)
    : state.next token = state.next other := by
  cases state with
  | ready definitions =>
    rw [Token.piece_eq_iff] at h
    simp only [next, h]
  | named definitions name =>
    rw [Token.piece_eq_iff] at h
    simp only [next, h]
  | body definitions name state => simp only [next, TermState.next_congr h]

theorem StatementState.next_congr {token other : Token} (h : token.piece = other.piece)
    (state : StatementState) : state.next token = state.next other := by
  cases state with
  | start =>
    have hterm := TermState.next_congr h .start
    rw [Token.piece_eq_iff] at h
    simp only [next, h, hterm]
  | named name =>
    rw [Token.piece_eq_iff] at h
    simp only [next, h]
  | body name state => simp only [next, TermState.next_congr h]
  | term state => simp only [next, TermState.next_congr h]

section

variable {σ α : Type} {next : σ → Token → Except Expected σ} {finish : σ → Except Expected α}
  {state : σ} {result : α}
  (hnext : ∀ {token other : Token}, token.piece = other.piece → ∀ state,
    next state token = next state other)
include hnext

theorem readTokens_congr {tokens others : List Token}
    (h : tokens.map Token.piece = others.map Token.piece)
    (hread : readTokens next finish state others = .ok result)
    : readTokens next finish state tokens = .ok result := by
  induction others generalizing tokens state with
  | nil =>
    rw [List.map_nil, List.map_eq_nil_iff] at h
    rw [h]
    exact hread
  | cons other others ih =>
    cases tokens with
    | nil => simp at h
    | cons token tokens =>
      rw [List.map_cons, List.map_cons, List.cons.injEq] at h
      rw [readTokens_cons] at hread ⊢
      rw [hnext h.1]
      cases hstate : next state other with
      | error expected => simp [hstate] at hread
      | ok after =>
        simp only [hstate] at hread ⊢
        exact ih h.2 hread

theorem parseWith_of_words {code : String} {tokens : List Token}
    (h : words code.toList = tokens.map Token.piece)
    (hread : readTokens next finish state tokens = .ok result)
    : parseWith (readTokens next finish state) code = .ok result := by
  rcases exists_spells h with ⟨spelled, hspells, hspelled⟩
  rw [parseWith_eq_ok_iff, hspells.2]
  exact ⟨hspells.1, readTokens_congr hnext hspelled hread⟩

end

theorem parseTerm_of_words {code : String} {tree : TermTree}
    (h : words code.toList = tree.tokens.map Token.piece) : parseTerm code = .ok tree.term := by
  apply parseWith_of_words TermState.next_congr h
  exact (readTerm_eq_ok_iff _ _).2 ⟨tree, rfl, rfl⟩

theorem parseStatement_of_words {code : String} {tree : DefinitionTree}
    (h : words code.toList = tree.tokens.map Token.piece)
    : parseStatement code = .ok (.definition tree.definition) := by
  apply parseWith_of_words StatementState.next_congr h
  exact (readStatement_eq_ok_iff _ _).2 (Or.inl ⟨tree, rfl, rfl⟩)

theorem parseBook_of_words {code : String} {trees : List DefinitionTree}
    (h : words code.toList = (trees.flatMap DefinitionTree.tokens).map Token.piece)
    : parseBook code = .ok (Book.ofList (trees.map DefinitionTree.definition)) := by
  have hparse : parseWith readDefinitions code = .ok (trees.map DefinitionTree.definition) := by
    apply parseWith_of_words BookState.next_congr h
    exact (readDefinitions_eq_ok_iff _ _).2 ⟨trees, rfl, rfl⟩
  unfold parseBook
  rw [hparse]
  rfl

theorem words_of_parseStatement {line : String} {definition : Definition}
    (h : parseStatement line = .ok (.definition definition))
    : ∃ tree : DefinitionTree, words line.toList = tree.tokens.map Token.piece ∧
        tree.definition = definition := by
  rcases (parseStatement_eq_ok_iff line _).1 h with ⟨tree, hspells, hresult⟩ | ⟨tree, _, hresult⟩
  · rw [Statement.definition.injEq] at hresult
    exact ⟨tree, hspells.words_eq, hresult⟩
  · simp at hresult

theorem words_of_parseStatement_term {line : String} {term : Term}
    (h : parseStatement line = .ok (.term term))
    : ∃ tree : TermTree, words line.toList = tree.tokens.map Token.piece ∧ tree.term = term := by
  rcases (parseStatement_eq_ok_iff line _).1 h with ⟨tree, _, hresult⟩ | ⟨tree, hspells, hresult⟩
  · simp at hresult
  · rw [Statement.term.injEq] at hresult
    exact ⟨tree, hspells.words_eq, hresult⟩

theorem parseBook_of_parseStatement {line : String} {definition : Definition}
    (h : parseStatement line = .ok (.definition definition))
    : parseBook line = .ok (Book.empty.define definition) := by
  rcases words_of_parseStatement h with ⟨tree, hwords, hdefinition⟩
  rw [← List.flatMap_singleton DefinitionTree.tokens tree] at hwords
  rw [parseBook_of_words hwords, ← hdefinition]
  rfl

-- Whatever a text ends with, a newline ends it too, and a definition is complete before the next one.
theorem parseBook_append_line {text line : String} {book : Book} {definition : Definition}
    (h : parseBook text = .ok book) (hline : parseStatement line = .ok (.definition definition))
    : parseBook (text ++ "\n" ++ line) = .ok (book.define definition) := by
  rcases (parseBook_eq_ok_iff text book).1 h with ⟨trees, hspells, hholds⟩
  rcases words_of_parseStatement hline with ⟨tree, hwords, hdefinition⟩
  rcases hspells.append_newline hwords with ⟨added, hjoined, hadded⟩
  have hwords' : words (text ++ "\n" ++ line).toList =
      ((trees ++ [tree]).flatMap DefinitionTree.tokens).map Token.piece := by
    rw [hjoined.words_eq, List.map_append, hadded, List.flatMap_append, List.map_append,
      List.flatMap_singleton]
  rw [parseBook_of_words hwords', ← (Book.holds_iff _ _).1 hholds, ← hdefinition]
  simp [Book.ofList]

end NamedLambda.Source
