import NamedLambda.Proofs.ErrorPlaces
import NamedLambda.Proofs.Printing

/-!
This module contains the completion of texts. Whatever a machine has read can be gone on with to a text of
the grammar, and no text of the grammar goes on with a token that it refuses. Hence a text is turned down
at its first impossible token.
-/

namespace NamedLambda.Source

open Text (Position)

section

variable {σ α : Type} {next : σ → Token → Except Expected σ} {finish : σ → Except Expected α}

variable (next finish) in
/--
From a state on some tokens are accepted that can be written.
-/
def Completable (state : σ) : Prop :=
  ∃ tokens : List Token, (∀ token ∈ tokens, token.kind.Matches token.text.toList) ∧
    ∃ result, readTokens next finish state tokens = .ok result

theorem completable_of_finish {state : σ} {result : α} (h : finish state = .ok result)
    : Completable next finish state := by
  refine ⟨[], by simp, result, ?_⟩
  rw [readTokens, h]

theorem Completable.cons {state after : σ} {token : Token}
    (hmatches : token.kind.Matches token.text.toList)
    (hread : ∀ rest, readTokens next finish state (token :: rest) =
      readTokens next finish after rest)
    (h : Completable next finish after) : Completable next finish state := by
  rcases h with ⟨tokens, htokens, result, hresult⟩
  refine ⟨token :: tokens, ?_, result, ?_⟩
  · rw [List.forall_mem_cons]
    exact ⟨hmatches, htokens⟩
  · rw [hread]
    exact hresult

theorem matches_name : Kind.name.Matches "x".toList :=
  ⟨'x', [], rfl, by decide, by simp⟩

theorem matches_rightParen : Kind.rightParen.Matches ")".toList := rfl

namespace ReadsTerm

variable {embed : TermState → σ} (machine : ReadsTerm next finish embed)
  (hdone : ∀ result, Completable next finish (embed (.done result)))
include machine hdone

-- A name stands for every term that is waited for, and what is open is closed from the inside out.
theorem completable_supply (result : Term) (stack : List Frame)
    : Completable next finish (embed (.supply result stack)) := by
  induction stack generalizing result with
  | nil => exact hdone result
  | cons frame stack ih =>
    cases frame with
    | body binder => exact ih _
    | function =>
      apply Completable.cons matches_name (machine.read_name (.ofText .name "x") _)
      apply Completable.cons matches_rightParen (machine.read_rightParen (.ofText .rightParen ")") _ _)
      exact ih _
    | argument function =>
      apply Completable.cons matches_rightParen (machine.read_rightParen (.ofText .rightParen ")") _ _)
      exact ih _

theorem completable (state : TermState) : Completable next finish (embed state) := by
  have hterm : ∀ stack, Completable next finish (embed (.term stack)) := by
    intro stack
    apply Completable.cons matches_name (machine.read_name (.ofText .name "x") stack)
    exact machine.completable_supply hdone _ stack
  cases state with
  | term stack => exact hterm stack
  | binder stack =>
    have hbinder : (TermState.binder stack).next (Terminal.ofText .name "x").token =
        .ok (.term (.body (some "x") :: stack)) := rfl
    exact Completable.cons matches_name (machine.step rfl hbinder) (hterm _)
  | more application stack =>
    apply Completable.cons matches_rightParen
      (machine.read_rightParen (.ofText .rightParen ")") application stack)
    exact machine.completable_supply hdone _ stack
  | done result => exact hdone result

end ReadsTerm

end

section

variable {σ α : Type} {next : σ → Token → Except Expected σ} {finish : σ → Except Expected α}

/--
A machine reads on to the first token with which the tokens can no longer be completed.
-/
theorem exists_refusal (hstates : ∀ state, Completable next finish state) {state : σ}
    {tokens : List Token} {mismatch : Mismatch}
    (h : readTokens next finish state tokens = .error mismatch)
    : ∃ index, index ≤ tokens.length ∧ mismatch.found = tokens[index]? ∧
        (∃ others : List Token, (∀ token ∈ others, token.kind.Matches token.text.toList) ∧
          ∃ result, readTokens next finish state (tokens.take index ++ others) = .ok result) ∧
        (index < tokens.length → ∀ others result,
          readTokens next finish state (tokens.take (index + 1) ++ others) ≠ .ok result) := by
  induction tokens generalizing state with
  | nil =>
    refine ⟨0, Nat.le_refl _, ?_, hstates state, by simp⟩
    rw [readTokens] at h
    split at h
    · simp at h
    · rw [Except.error.injEq] at h
      rw [← h]
      rfl
  | cons token tokens ih =>
    rw [readTokens_cons] at h
    cases hnext : next state token with
    | error expected =>
      simp only [hnext, Except.error.injEq] at h
      refine ⟨0, Nat.zero_le _, ?_, hstates state, ?_⟩
      · rw [← h]
        rfl
      · intro _ others result
        simp [readTokens_cons, hnext]
    | ok after =>
      simp only [hnext] at h
      rcases ih h with ⟨index, hindex, hfound, ⟨others, hmatches, result, hread⟩, hrefused⟩
      refine ⟨index + 1, by simpa using hindex, ?_, ⟨others, hmatches, result, ?_⟩, ?_⟩
      · rw [hfound, List.getElem?_cons_succ]
      · rw [List.take_succ_cons, List.cons_append, readTokens_cons_of_ok hnext, hread]
      · intro hlt more result'
        rw [List.take_succ_cons, List.cons_append, readTokens_cons_of_ok hnext]
        exact hrefused (by simpa using hlt) more result'

end

theorem TermState.completable (state : TermState)
    : Completable TermState.next TermState.finish state :=
  TermState.readsTerm.completable (fun _ => completable_of_finish rfl) state

theorem BookState.completable (state : BookState)
    : Completable BookState.next BookState.finish state := by
  have hbody : ∀ definitions name state,
      Completable BookState.next BookState.finish (BookState.ofBody definitions name state) :=
    fun definitions name state =>
      (BookState.readsTerm definitions name).completable (fun _ => completable_of_finish rfl) state
  cases state with
  | ready definitions => exact completable_of_finish rfl
  | named definitions name =>
    have hmatches : Kind.equals.Matches "=".toList := rfl
    have hequals : BookState.next (.named definitions name) (Terminal.ofText .equals "=").token =
        .ok (.body definitions name .start) := rfl
    exact Completable.cons hmatches (readTokens_cons_of_ok hequals) (hbody definitions name .start)
  | body definitions name state =>
    cases state with
    | term stack => exact hbody definitions name (.term stack)
    | binder stack => exact hbody definitions name (.binder stack)
    | more application stack => exact hbody definitions name (.more application stack)
    | done result => exact completable_of_finish rfl

theorem StatementState.completable (state : StatementState)
    : Completable StatementState.next StatementState.finish state := by
  cases state with
  | start =>
    apply Completable.cons matches_name (read_name (.ofText .name "x"))
    exact completable_of_finish rfl
  | named name => exact completable_of_finish rfl
  | body name state =>
    exact (readsTerm_body name).completable (fun _ => completable_of_finish rfl) state
  | term state => exact readsTerm_term.completable (fun _ => completable_of_finish rfl) state

/-!
Completed texts: what stands before a token divides in the same way without it, and goes on in a new line.
-/

theorem Token.exists_ofPieces_eq_take (offset : Nat) (pieces : List Piece) (index : Nat)
    : ∃ left right, pieces = left ++ right ∧
        Token.ofPieces offset left = (Token.ofPieces offset pieces).take index := by
  induction pieces generalizing offset index with
  | nil => exact ⟨[], [], rfl, by simp [ofPieces]⟩
  | cons piece rest ih =>
    cases index with
    | zero => exact ⟨[], piece :: rest, rfl, rfl⟩
    | succ index =>
      simp only [ofPieces_eq, placed, List.filterMap_cons]
      cases hplace : ofPlace? (offset, piece) with
      | none =>
        rcases ih (offset + piece.text.length) (index + 1) with ⟨left, right, hrest, hleft⟩
        refine ⟨piece :: left, right, by rw [hrest, List.cons_append], ?_⟩
        simpa only [ofPieces_eq, placed, List.filterMap_cons, hplace] using hleft
      | some token =>
        rcases ih (offset + piece.text.length) index with ⟨left, right, hrest, hleft⟩
        refine ⟨piece :: left, right, by rw [hrest, List.cons_append], ?_⟩
        simpa only [ofPieces_eq, placed, List.filterMap_cons, hplace, List.take_succ_cons,
          List.cons.injEq, true_and] using hleft

theorem Spells.take {code : String} {tokens : List Token} (h : Spells code tokens) (index : Nat)
    : ∃ before, Spells before (tokens.take index) := by
  rcases Token.exists_ofPieces_eq_take 0 (pieces code.toList) index with ⟨left, right, hpieces, htake⟩
  have hdivides := divides_pieces code.toList
  rw [hpieces] at hdivides
  have hclosed : ∀ rest, .unclosed rest ∉ left := by
    intro rest hmem
    apply h.closed rest
    rw [words, List.mem_filter, hpieces]
    exact ⟨List.mem_append_left _ hmem, rfl⟩
  have hbefore := (hdivides.before hclosed).eq_pieces
  have hissues := h.1
  simp only [tokenize, Issue.ofPieces_eq, hpieces, placed_append, List.filterMap_append,
    List.append_eq_nil_iff] at hissues
  refine ⟨String.ofList (left.flatMap Piece.text), ?_⟩
  rw [spells_iff, String.toList_ofList, ← hbefore, outline_eq_map_iff code.toList, Issue.ofPieces_eq,
    ← h.2]
  exact ⟨hissues.1, htake⟩

def spelling (tokens : List Token) : List Char :=
  tokens.flatMap (fun token => token.text.toList ++ [' '])

theorem words_spelling {tokens : List Token}
    (h : ∀ token ∈ tokens, token.kind.Matches token.text.toList)
    : words (spelling tokens) = tokens.map Token.piece := by
  induction tokens with
  | nil => simp [spelling, words, pieces_nil]
  | cons token rest ih =>
    rw [List.forall_mem_cons] at h
    have htext : spelling (token :: rest) = token.piece.text ++ ' ' :: spelling rest := by
      simp [spelling, Token.piece, Piece.text]
    have hfits : token.piece.Fits (' ' :: spelling rest) :=
      .token h.1 (fun _ => Piece.head?_stop (by decide) _)
    have hblank : words (' ' :: spelling rest) = words (spelling rest) := words_blank (by decide) _
    rw [ih h.2] at hblank
    rw [htext, words, hfits.pieces_eq, List.filter_cons_of_pos rfl, List.map_cons, ← hblank, words]

theorem Spells.exists_completed {code : String} {tokens others : List Token} (h : Spells code tokens)
    (index : Nat) (hothers : ∀ token ∈ others, token.kind.Matches token.text.toList)
    : ∃ text added, Spells text (tokens.take index ++ added) ∧
        added.map Token.piece = others.map Token.piece := by
  rcases h.take index with ⟨before, hbefore⟩
  have hwords : words (String.ofList (spelling others)).toList = others.map Token.piece := by
    rw [String.toList_ofList]
    exact words_spelling hothers
  rcases hbefore.append_newline hwords with ⟨added, hspells, hadded⟩
  exact ⟨_, added, hspells, hadded⟩

/-!
The languages of the grammar, and the first token of a text that is in no text of such a language.
-/

def IsTerm (tokens : List Token) : Prop :=
  ∃ tree : TermTree, tree.tokens = tokens

def IsBook (tokens : List Token) : Prop :=
  ∃ trees : List DefinitionTree, trees.flatMap DefinitionTree.tokens = tokens

def IsStatement (tokens : List Token) : Prop :=
  (∃ tree : DefinitionTree, tree.tokens = tokens) ∨ IsTerm tokens

theorem isTerm_iff (tokens : List Token) : IsTerm tokens ↔ ∃ term, readTerm tokens = .ok term := by
  simp only [IsTerm, readTerm_eq_ok_iff]
  rw [exists_comm]
  simp only [exists_and_left, exists_eq', and_true]

theorem isBook_iff (tokens : List Token)
    : IsBook tokens ↔ ∃ definitions, readDefinitions tokens = .ok definitions := by
  simp only [IsBook, readDefinitions_eq_ok_iff]
  rw [exists_comm]
  simp only [exists_and_left, exists_eq', and_true]

theorem isStatement_iff (tokens : List Token)
    : IsStatement tokens ↔ ∃ statement, readStatement tokens = .ok statement := by
  simp only [IsStatement, IsTerm, readStatement_eq_ok_iff, exists_or]
  rw [exists_comm, @exists_comm Statement TermTree]
  simp only [exists_and_left, exists_eq', and_true]

/--
The tokens before an index can be completed to tokens of a language, which a text divides into. With the
token at the index they cannot, and all of the tokens alone are not in the language.
-/
structure FirstImpossible (language : List Token → Prop) (tokens : List Token) (index : Nat) : Prop
    where
  index_le : index ≤ tokens.length
  completable : ∃ text added, Spells text (tokens.take index ++ added) ∧
    language (tokens.take index ++ added)
  impossible : index < tokens.length → ∀ others, language others →
    ¬(tokens.take (index + 1)).map Token.piece <+: others.map Token.piece
  incomplete : ¬language tokens

/--
The error is at the token with an index, or at the end of the text if there is no such token.
-/
def SyntaxError.PointsAt (error : SyntaxError) (code : String) (index : Nat) : Prop :=
  index ≤ (tokenize code).tokens.length ∧
    ∃ expected, error =
      Mismatch.toSyntaxError code { expected, found := (tokenize code).tokens[index]? }

def tokenOffset (code : String) (index : Nat) : Nat :=
  (tokenize code).tokens[index]?.elim code.length Token.offset

theorem tokenOffset_le (code : String) (index : Nat) : tokenOffset code index ≤ code.toList.length := by
  unfold tokenOffset
  cases htoken : (tokenize code).tokens[index]? with
  | none => exact Nat.le_of_eq String.length_toList.symm
  | some token =>
    rcases Token.exists_fits (List.mem_of_getElem? htoken) with ⟨before, rest, hcode, hoffset, _⟩
    simp [hcode, hoffset]

theorem tokenOffset_lt {code : String} {index other : Nat} (hlt : index < other)
    (hother : other ≤ (tokenize code).tokens.length)
    : tokenOffset code index < tokenOffset code other := by
  have hindex : index < (tokenize code).tokens.length := by omega
  have htoken := List.getElem?_eq_getElem hindex
  by_cases hend : other = (tokenize code).tokens.length
  · have hmem := List.mem_of_getElem? htoken
    rcases Token.exists_fits hmem with ⟨before, rest, hcode, hoffset, _⟩
    have hpos := Token.length_pos hmem
    rw [tokenOffset, tokenOffset, htoken, hend, List.getElem?_eq_none (Nat.le_refl _)]
    simp only [Option.elim_some, Option.elim_none, hoffset, ← String.length_toList, hcode,
      List.length_append] at hpos ⊢
    omega
  · have hother' : other < (tokenize code).tokens.length := by omega
    rw [tokenOffset, tokenOffset, htoken, List.getElem?_eq_getElem hother']
    exact (List.pairwise_iff_getElem.1 (tokens_pairwise code) _ _ hindex hother' hlt).1

theorem SyntaxError.PointsAt.position_eq {error : SyntaxError} {code : String} {index : Nat}
    (h : error.PointsAt code index)
    : error.issues.map Issue.position = [Position.of code.toList (tokenOffset code index)] := by
  rcases h.2 with ⟨expected, heq⟩
  rw [heq, Mismatch.toSyntaxError, tokenOffset]
  cases (tokenize code).tokens[index]? with
  | none => rfl
  | some token => rfl

theorem SyntaxError.PointsAt.unique {error : SyntaxError} {code : String} {index other : Nat}
    (h : error.PointsAt code index) (h' : error.PointsAt code other) : other = index := by
  have hposition := h.position_eq
  rw [h'.position_eq, List.singleton_inj] at hposition
  have hoffset := Position.of_inj (tokenOffset_le code other) (tokenOffset_le code index) hposition
  rcases Nat.lt_trichotomy other index with hlt | heq | hlt
  · have := tokenOffset_lt hlt h.1
    omega
  · exact heq
  · have := tokenOffset_lt hlt h'.1
    omega

/--
The error is at exactly one place, which is the first impossible token of the text.
-/
def SyntaxError.AtFirstImpossible (error : SyntaxError) (language : List Token → Prop) (code : String)
    : Prop :=
  ∃ index, (∀ other, error.PointsAt code other ↔ other = index) ∧
    FirstImpossible language (tokenize code).tokens index

section

variable {σ α : Type} {next : σ → Token → Except Expected σ} {finish : σ → Except Expected α}
  {state : σ} {language : List Token → Prop}
  (hstates : ∀ state, Completable next finish state)
  (hnext : ∀ {token other : Token}, token.piece = other.piece → ∀ state,
    next state token = next state other)
  (hlanguage : ∀ tokens, language tokens ↔
    ∃ result, readTokens next finish state tokens = .ok result)
include hstates hnext hlanguage

theorem exists_firstImpossible {code : String} {tokens : List Token} {mismatch : Mismatch}
    (hspells : Spells code tokens) (h : readTokens next finish state tokens = .error mismatch)
    : ∃ index, mismatch.found = tokens[index]? ∧ FirstImpossible language tokens index := by
  rcases exists_refusal hstates h with
    ⟨index, hindex, hfound, ⟨others, hmatches, result, hread⟩, hrefused⟩
  refine ⟨index, hfound, ?_⟩
  constructor
  · exact hindex
  · rcases hspells.exists_completed index hmatches with ⟨text, added, hcompleted, hadded⟩
    refine ⟨text, added, hcompleted, (hlanguage _).2 ⟨result, ?_⟩⟩
    apply readTokens_congr hnext _ hread
    rw [List.map_append, List.map_append, hadded]
  · intro hlt more hmore hbegins
    rcases hbegins with ⟨rest, hrest⟩
    rcases (hlanguage more).1 hmore with ⟨other, hother⟩
    apply hrefused hlt (more.drop (tokens.take (index + 1)).length) other
    apply readTokens_congr hnext _ hother
    rw [List.map_append, List.map_drop, ← hrest, List.drop_left' (List.length_map _)]
  · intro htokens
    rcases (hlanguage tokens).1 htokens with ⟨other, hother⟩
    rw [hother] at h
    simp at h

theorem atFirstImpossible_of_parseWith {code : String} {error : SyntaxError}
    (hissues : (tokenize code).issues = [])
    (h : parseWith (readTokens next finish state) code = .error error)
    : error.AtFirstImpossible language code := by
  rw [parseWith_eq, if_pos hissues] at h
  cases hread : readTokens next finish state (tokenize code).tokens with
  | ok result => simp [hread] at h
  | error mismatch =>
    simp only [hread, Except.error.injEq] at h
    rcases exists_firstImpossible hstates hnext hlanguage ⟨hissues, rfl⟩ hread with
      ⟨index, hfound, hfirst⟩
    have hpoints : error.PointsAt code index := by
      refine ⟨hfirst.index_le, mismatch.expected, ?_⟩
      rw [← hfound]
      exact h.symm
    refine ⟨index, ?_, hfirst⟩
    intro other
    constructor
    · exact hpoints.unique
    · intro heq
      rw [heq]
      exact hpoints

end

/--
Without an issue among the tokens, a text is turned down at the first token that is impossible.
-/
theorem parse_error_atFirstImpossible {code : String} (hissues : (tokenize code).issues = [])
    : (∀ error, parseTerm code = .error error → error.AtFirstImpossible IsTerm code) ∧
      (∀ error, parseStatement code = .error error → error.AtFirstImpossible IsStatement code) ∧
      (∀ error, parseBook code = .error error → error.AtFirstImpossible IsBook code) := by
  refine ⟨?_, ?_, ?_⟩
  · intro error h
    exact atFirstImpossible_of_parseWith TermState.completable TermState.next_congr isTerm_iff hissues h
  · intro error h
    exact atFirstImpossible_of_parseWith StatementState.completable StatementState.next_congr
      isStatement_iff hissues h
  · intro error h
    exact atFirstImpossible_of_parseWith BookState.completable BookState.next_congr isBook_iff hissues
      ((parseBook_eq_error_iff code error).1 h)

theorem parse_error_atFirstImpossible_openParenthesis
    : let code := "main = (f x"
      let errorAt (column : Int) (message : String) : SyntaxError :=
        { issues := [{ line := 1, column, message }], code := some code, length := 1 }
      let beforeEquals := errorAt 6 "expected end of input, found '='"
      let beforeEnd := errorAt 12 "expected ')', found end of input"
      (parseTerm code = .error beforeEquals ∧ beforeEquals.AtFirstImpossible IsTerm code) ∧
        (parseStatement code = .error beforeEnd ∧ beforeEnd.AtFirstImpossible IsStatement code) ∧
        (parseBook code = .error beforeEnd ∧ beforeEnd.AtFirstImpossible IsBook code) := by
  intro code errorAt beforeEquals beforeEnd
  have hissues : (tokenize code).issues = [] := by cbv
  have hterm : parseTerm code = .error beforeEquals := by cbv
  have hstatement : parseStatement code = .error beforeEnd := by cbv
  have hbook : parseBook code = .error beforeEnd := by cbv
  rcases parse_error_atFirstImpossible hissues with ⟨atTerm, atStatement, atBook⟩
  exact ⟨⟨hterm, atTerm _ hterm⟩, ⟨hstatement, atStatement _ hstatement⟩, ⟨hbook, atBook _ hbook⟩⟩

end NamedLambda.Source
