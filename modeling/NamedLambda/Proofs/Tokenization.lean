import Mathlib.Logic.ExistsUnique
import NamedLambda.Proofs.Locations

/-!
This module contains the places of the pieces of a text. Every index before an unclosed comment is in
exactly one of them, and the tokens and issues of the text are those of its pieces, in their order.
-/

namespace NamedLambda.Source

theorem placed_append (offset : Nat) (left right : List Piece)
    : placed offset (left ++ right) =
      placed offset left ++ placed (offset + (left.flatMap Piece.text).length) right := by
  induction left generalizing offset with
  | nil => rfl
  | cons piece left ih =>
    rw [List.cons_append, placed, placed, ih, List.cons_append, List.flatMap_cons,
      List.length_append, Nat.add_assoc]

theorem le_of_mem_placed {offset : Nat} {pieces : List Piece} {place : Nat × Piece}
    (h : place ∈ placed offset pieces) : offset ≤ place.1 := by
  rcases (mem_placed_iff _ _ _ _).1 h with ⟨left, right, _, hplace⟩
  omega

theorem add_length_le_of_mem_placed {offset : Nat} {pieces : List Piece} {place : Nat × Piece}
    (h : place ∈ placed offset pieces)
    : place.1 + place.2.text.length ≤ offset + (pieces.flatMap Piece.text).length := by
  rcases (mem_placed_iff _ _ _ _).1 h with ⟨left, right, hpieces, hplace⟩
  rw [hpieces, List.flatMap_append, List.flatMap_cons, List.length_append, List.length_append]
  omega

theorem pairwise_placed (offset : Nat) (pieces : List Piece)
    : (placed offset pieces).Pairwise (fun left right => left.1 + left.2.text.length ≤ right.1) := by
  induction pieces generalizing offset with
  | nil => exact .nil
  | cons piece rest ih =>
    rw [placed, List.pairwise_cons]
    exact ⟨fun place hmem => le_of_mem_placed hmem, ih _⟩

theorem existsUnique_placed (pieces : List Piece) {offset index : Nat} (hlower : offset ≤ index)
    (hupper : index < offset + (pieces.flatMap Piece.text).length)
    : ∃! place : Nat × Piece, place ∈ placed offset pieces ∧
        place.1 ≤ index ∧ index < place.1 + place.2.text.length := by
  induction pieces generalizing offset with
  | nil =>
    rw [List.flatMap_nil, List.length_nil] at hupper
    omega
  | cons piece rest ih =>
    rw [List.flatMap_cons, List.length_append] at hupper
    by_cases hfirst : index < offset + piece.text.length
    · refine ⟨(offset, piece), ⟨List.mem_cons_self, hlower, hfirst⟩, ?_⟩
      rintro place ⟨hmem, hle, hlt⟩
      cases List.mem_cons.1 hmem with
      | inl heq => exact heq
      | inr hrest =>
        have := le_of_mem_placed hrest
        omega
    · have hlater : offset + piece.text.length ≤ index := by omega
      rcases ih hlater (by omega) with ⟨place, ⟨hmem, hplace⟩, hunique⟩
      refine ⟨place, ⟨List.mem_cons_of_mem _ hmem, hplace⟩, ?_⟩
      rintro other ⟨hother, hle, hlt⟩
      cases List.mem_cons.1 hother with
      | inl heq =>
        simp only [heq] at hlt
        omega
      | inr hrest => exact hunique other ⟨hrest, hle, hlt⟩

def invalidPlaces (places : List (Nat × Piece)) : List (Nat × Char) :=
  places.filterMap fun
    | (offset, .invalid c) => some (offset, c)
    | _ => none

def unclosedStart? (places : List (Nat × Piece)) : Option Nat :=
  places.findSome? fun
    | (offset, .unclosed _) => some offset
    | _ => none

theorem mem_of_unclosedStart? {places : List (Nat × Piece)} {start : Nat}
    (h : unclosedStart? places = some start) : ∃ text, (start, .unclosed text) ∈ places := by
  rcases List.exists_of_findSome?_eq_some h with ⟨⟨offset, piece⟩, hmem, hstart⟩
  cases piece with
  | unclosed text =>
    rw [Option.some.injEq] at hstart
    rw [← hstart]
    exact ⟨text, hmem⟩
  | _ => simp at hstart

theorem invalidPlaces_pairwise (division : List Piece) (offset : Nat)
    : (invalidPlaces (placed offset division)).Pairwise (fun left right => left.1 < right.1) := by
  apply (pairwise_placed offset division).filterMap
  rintro ⟨place, piece⟩ ⟨place', piece'⟩ hle found hfound found' hfound'
  cases piece with
  | invalid c =>
    cases piece' with
    | invalid c' =>
      rw [Option.some.injEq] at hfound hfound'
      rw [← hfound, ← hfound']
      exact hle
    | _ => simp at hfound'
  | _ => simp at hfound

namespace Divides

variable {text rest : List Char} {division left right : List Piece}

-- An unclosed comment takes all that is left, so that it can only be last.
theorem eq_nil_of_unclosed (h : Divides text (left ++ .unclosed rest :: right)) : right = [] := by
  have hright : Divides [] right := by
    rcases h.suffix.exists_rest with ⟨more, _, hfits, hright⟩
    cases hfits
    exact hright
  rw [hright.eq_pieces, pieces_nil]

theorem end_of_unclosed (h : Divides text division) {start : Nat}
    (hmem : (start, .unclosed rest) ∈ placed 0 division)
    : ∃ left, division = left ++ [.unclosed rest] ∧ start = (left.flatMap Piece.text).length := by
  rcases (mem_placed_iff _ _ _ _).1 hmem with ⟨left, right, hdivision, hstart⟩
  rw [hdivision] at h
  refine ⟨left, ?_, by omega⟩
  rw [hdivision, h.eq_nil_of_unclosed]

theorem unclosedStart?_eq_some_iff (h : Divides text division) (start : Nat)
    : unclosedStart? (placed 0 division) = some start ↔
      ∃ rest, (start, .unclosed rest) ∈ placed 0 division := by
  constructor
  · exact mem_of_unclosedStart?
  · rintro ⟨rest, hmem⟩
    cases hfirst : unclosedStart? (placed 0 division) with
    | none =>
      have := List.findSome?_eq_none_iff.1 hfirst _ hmem
      simp at this
    | some first =>
      rcases mem_of_unclosedStart? hfirst with ⟨rest', hmem'⟩
      rcases h.end_of_unclosed hmem with ⟨left, hdivision, hstart⟩
      rcases h.end_of_unclosed hmem' with ⟨left', hdivision', hstart'⟩
      rw [hdivision] at hdivision'
      rw [hstart, hstart', (List.append_inj' hdivision' rfl).1]

theorem issues_eq (h : Divides text division) (code : List Char) (offset : Nat)
    : Issue.ofPieces code offset division =
      (invalidPlaces (placed offset division)).map (fun place =>
        Issue.atOffset code place.1 ("invalid character '" ++ String.singleton place.2 ++ "'")) ++
      (unclosedStart? (placed offset division)).toList.map (fun start =>
        Issue.atOffset code start "unclosed comment") := by
  induction h generalizing offset with
  | nil => rfl
  | @cons piece rest more hfits h ih =>
    cases hfits with
    | invalid => exact congrArg (List.cons _) (ih _)
    | unclosed =>
      have hnil : more = [] := by rw [h.eq_pieces, pieces_nil]
      rw [hnil]
      rfl
    | _ => exact ih _

end Divides

/--
The tokens and issues of a text are those of its pieces, which are given with their offsets.
-/
structure Tokenized.AccountsFor (tokenized : Tokenized) (code : List Char)
    (places : List (Nat × Piece)) : Prop where
  covered : ∀ index < (unclosedStart? places).getD code.length,
    ∃! place : Nat × Piece, place ∈ places ∧ (∀ text, place.2 ≠ .unclosed text) ∧
      place.1 ≤ index ∧ index < place.1 + place.2.text.length
  mem_tokens_iff : ∀ token, token ∈ tokenized.tokens ↔ (token.offset, token.piece) ∈ places
  tokens_ordered : tokenized.tokens.Pairwise (fun left right =>
    left.offset < right.offset ∧ left.offset + left.text.length ≤ right.offset)
  token_text : ∀ token ∈ tokenized.tokens,
    (code.drop token.offset).take token.text.length = token.text.toList
  token_kind : ∀ token ∈ tokenized.tokens, ∀ kind : Kind,
    kind.Matches token.text.toList ↔ kind = token.kind
  name_ends : ∀ token ∈ tokenized.tokens, token.kind = .name →
    ∀ c ∈ code[token.offset + token.text.length]?, Piece.isNameChar c = false
  issues_eq : tokenized.issues =
    (invalidPlaces places).map (fun place =>
      Issue.atOffset code place.1 ("invalid character '" ++ String.singleton place.2 ++ "'")) ++
    (unclosedStart? places).toList.map (fun start => Issue.atOffset code start "unclosed comment")
  issues_ordered : (invalidPlaces places).Pairwise (fun left right => left.1 < right.1)
  unclosed_last : ∀ start, unclosedStart? places = some start →
    ∀ place ∈ places, place.1 = start ∨ place.1 + place.2.text.length ≤ start

theorem exists_fits_of_mem_placed {text : List Char} {offset : Nat} {piece : Piece}
    (h : (offset, piece) ∈ placed 0 (pieces text))
    : ∃ before rest, text = before ++ (piece.text ++ rest) ∧ offset = before.length ∧
        piece.Fits rest := by
  rcases (mem_placed_iff _ _ _ _).1 h with ⟨left, right, hpieces, hoffset⟩
  have hdivides := divides_pieces text
  rw [hpieces] at hdivides
  refine ⟨left.flatMap Piece.text, right.flatMap Piece.text, ?_, by omega, hdivides.fits⟩
  rw [← hdivides.flatMap_text_eq, List.flatMap_append, List.flatMap_cons]

section

variable {code : String} {token : Token} (h : token ∈ (tokenize code).tokens)
include h

theorem Token.exists_fits
    : ∃ before rest, code.toList = before ++ (token.text.toList ++ rest) ∧
        token.offset = before.length ∧ token.kind.Matches token.text.toList ∧
        (token.kind = .name → ∀ d ∈ rest.head?, Piece.isNameChar d = false) := by
  rcases exists_fits_of_mem_placed ((mem_tokenize_iff code token).1 h) with
    ⟨before, rest, hcode, hoffset, hfits⟩
  refine ⟨before, rest, hcode, hoffset, ?_⟩
  cases hfits with
  | token hmatches hend => exact ⟨hmatches, hend⟩

theorem Token.take_drop_eq
    : (code.toList.drop token.offset).take token.text.length = token.text.toList := by
  rcases Token.exists_fits h with ⟨before, rest, hcode, hoffset, _⟩
  rw [hcode, hoffset, List.drop_left, ← String.length_toList, List.take_left]

theorem Token.matches_iff (kind : Kind) : kind.Matches token.text.toList ↔ kind = token.kind := by
  rcases Token.exists_fits h with ⟨before, rest, _, _, hmatches, _⟩
  constructor
  · intro h'
    exact Piece.kind_eq_of_matches h' hmatches
  · intro heq
    rw [heq]
    exact hmatches

theorem Token.name_ends (hkind : token.kind = .name)
    : ∀ c ∈ code.toList[token.offset + token.text.length]?, Piece.isNameChar c = false := by
  rcases Token.exists_fits h with ⟨before, rest, hcode, hoffset, _, hend⟩
  intro c hc
  apply hend hkind
  rw [List.head?_eq_getElem?]
  rw [hcode, hoffset, ← String.length_toList, List.getElem?_append_right (by omega),
    List.getElem?_append_right (by omega)] at hc
  simpa using hc

theorem Token.length_pos : 0 < token.text.length := by
  rcases Token.exists_fits h with ⟨before, rest, _, _, hmatches, _⟩
  rw [← String.length_toList, List.length_pos_iff]
  exact hmatches.ne_nil

end

theorem tokens_pairwise (code : String)
    : (tokenize code).tokens.Pairwise (fun left right =>
        left.offset < right.offset ∧ left.offset + left.text.length ≤ right.offset) := by
  have hordered : (tokenize code).tokens.Pairwise (fun left right =>
      left.offset + left.text.length ≤ right.offset) := by
    simp only [tokenize, Token.ofPieces_eq]
    apply (pairwise_placed 0 (pieces code.toList)).filterMap
    intro place place' hle token htoken token' htoken'
    rw [Token.ofPlace?_eq_some_iff] at htoken htoken'
    rw [htoken, htoken'] at hle
    rw [← String.length_toList]
    exact hle
  apply hordered.imp_of_mem
  intro left right hleft _ hle
  have := Token.length_pos hleft
  exact ⟨by omega, hle⟩

namespace Divides

variable {text : List Char} {division : List Piece} (h : Divides text division)
include h

-- An index before the unclosed comment is not in it, and without one every index is in some piece.
theorem existsUnique_place {index : Nat}
    (hindex : index < (unclosedStart? (placed 0 division)).getD text.length)
    : ∃! place : Nat × Piece, place ∈ placed 0 division ∧ (∀ rest, place.2 ≠ .unclosed rest) ∧
        place.1 ≤ index ∧ index < place.1 + place.2.text.length := by
  have hupper : index < text.length := by
    cases hstart : unclosedStart? (placed 0 division) with
    | none =>
      rw [hstart] at hindex
      exact hindex
    | some start =>
      rw [hstart] at hindex
      rcases (h.unclosedStart?_eq_some_iff start).1 hstart with ⟨rest, hmem⟩
      rcases h.end_of_unclosed hmem with ⟨left, hdivision, hlength⟩
      rw [← h.flatMap_text_eq, hdivision, List.flatMap_append, List.length_append, ← hlength]
      exact Nat.lt_add_right _ hindex
  rw [← h.flatMap_text_eq, ← Nat.zero_add (division.flatMap Piece.text).length] at hupper
  rcases existsUnique_placed division (Nat.zero_le index) hupper with
    ⟨place, ⟨hmem, hlower, hplace⟩, hunique⟩
  refine ⟨place, ⟨hmem, ?_, hlower, hplace⟩, ?_⟩
  · intro rest hpiece
    have hmem' : (place.1, .unclosed rest) ∈ placed 0 division := by
      rw [← hpiece]
      exact hmem
    rw [(h.unclosedStart?_eq_some_iff place.1).2 ⟨rest, hmem'⟩] at hindex
    exact absurd hlower (Nat.not_le_of_lt hindex)
  · rintro other ⟨hother, _, hcovers⟩
    exact hunique other ⟨hother, hcovers⟩

theorem le_unclosedStart {start : Nat} (hstart : unclosedStart? (placed 0 division) = some start)
    {place : Nat × Piece} (hmem : place ∈ placed 0 division)
    : place.1 = start ∨ place.1 + place.2.text.length ≤ start := by
  rcases (h.unclosedStart?_eq_some_iff start).1 hstart with ⟨rest, hunclosed⟩
  rcases h.end_of_unclosed hunclosed with ⟨left, hdivision, hlength⟩
  rw [hdivision, placed_append, Nat.zero_add, ← hlength, List.mem_append] at hmem
  cases hmem with
  | inl hleft =>
    right
    have hle := add_length_le_of_mem_placed hleft
    rw [Nat.zero_add, ← hlength] at hle
    exact hle
  | inr hlast =>
    left
    rw [placed, placed, List.mem_singleton] at hlast
    rw [hlast]

end Divides

/--
Every text has exactly one division, and its tokens and issues are those of the pieces of this division.
-/
theorem tokenize_accountsFor (code : String)
    : ∃ division, (∀ other, Divides code.toList other ↔ other = division) ∧
        (tokenize code).AccountsFor code.toList (placed 0 division) := by
  have h := divides_pieces code.toList
  refine ⟨pieces code.toList, divides_iff code.toList, ?_⟩
  exact
    { covered := fun index => h.existsUnique_place
      mem_tokens_iff := Token.mem_tokenize_iff code
      tokens_ordered := tokens_pairwise code
      token_text := fun token => Token.take_drop_eq
      token_kind := fun token => Token.matches_iff
      name_ends := fun token => Token.name_ends
      issues_eq := h.issues_eq code.toList 0
      issues_ordered := invalidPlaces_pairwise _ _
      unclosed_last := fun start hstart place => h.le_unclosedStart hstart }

end NamedLambda.Source
