import Mathlib
import NamedLambda.Proofs.Tokenization

/-!
This module contains the tokens and issues of texts that are joined by a newline. They are those of the
first text, followed by those of the second one, which are only moved.
-/

namespace NamedLambda

namespace Text

def Position.down (count : Nat) (position : Position) : Position :=
  { position with line := position.line + count }

theorem Position.of_eq_take {code : List Char} {offset : Nat} (h : offset ≤ code.length)
    : Position.of code offset =
      { line := (code.take offset).count '\n' + 1
        column := (lastLine (code.take offset)).length + 1 } := by
  have := Position.of_append (code.take offset) (code.drop offset)
  rw [List.take_append_drop, List.length_take_of_le h] at this
  exact this

theorem Position.of_append_left {left : List Char} {offset : Nat} (h : offset ≤ left.length)
    (more : List Char) : Position.of (left ++ more) offset = Position.of left offset := by
  rw [of_eq_take h, of_eq_take, List.take_append_of_le_length h]
  rw [List.length_append]
  omega

theorem Position.of_append_newline (left : List Char) {right : List Char} {offset : Nat}
    (h : offset ≤ right.length)
    : Position.of (left ++ '\n' :: right) ↑(left.length + 1 + offset) =
      (Position.of right offset).down (left.count '\n' + 1) := by
  have htake : (left ++ '\n' :: right).take (left.length + 1 + offset) =
      left ++ '\n' :: right.take offset := by
    rw [Nat.add_assoc, List.take_length_add_append, Nat.add_comm 1, List.take_succ_cons]
  rw [of_eq_take h, of_eq_take, htake, lastLine_append_newline, down, List.count_append,
    List.count_cons_self]
  · simp only [Position.mk.injEq, and_true]
    omega
  · rw [List.length_append, List.length_cons]
    omega

end Text

namespace Source

open Text (Position)

def Token.shift (distance : Nat) (token : Token) : Token :=
  { token with offset := token.offset + distance }

def Issue.down (count : Nat) (issue : Issue) : Issue :=
  { issue with line := issue.line + count }

theorem Issue.atOffset_down {code other : List Char} {offset place count : Nat}
    (h : Position.of code offset = (Position.of other place).down count) (message : String)
    : Issue.atOffset code offset message = (Issue.atOffset other place message).down count := by
  simp [atOffset, down, h, Position.down]

theorem outline_eq_filter (offset : Nat) (pieces : List Piece)
    : outline offset pieces = (placed offset pieces).filter (fun place => !place.2.isSilent) := by
  induction pieces generalizing offset with
  | nil => rfl
  | cons piece rest ih =>
    rw [outline, placed, List.filter_cons, ih]
    cases piece.isSilent with
    | true => rfl
    | false => rfl

section

variable {α : Type} {read : Nat × Piece → Option α}
  (hsilent : ∀ place, place.2.isSilent = true → read place = none)
include hsilent

theorem filterMap_outline (offset : Nat) (pieces : List Piece)
    : (outline offset pieces).filterMap read = (placed offset pieces).filterMap read := by
  rw [outline_eq_filter, List.filterMap_filter]
  apply List.filterMap_congr
  intro place _
  cases hplace : place.2.isSilent with
  | true => exact (hsilent place hplace).symm
  | false => rfl

theorem filterMap_placed_append_newline {left : List Char} (h : ∀ text, .unclosed text ∉ words left)
    (right : List Char) (offset : Nat)
    : (placed offset (pieces (left ++ '\n' :: right))).filterMap read =
      (placed offset (pieces left)).filterMap read ++
        (placed (offset + (left.length + 1)) (pieces right)).filterMap read := by
  rw [← filterMap_outline hsilent, ← filterMap_outline hsilent, ← filterMap_outline hsilent,
    outline_append_newline left right h, List.filterMap_append, Nat.add_assoc]

end

theorem Token.ofPlace?_silent (place : Nat × Piece) (h : place.2.isSilent = true)
    : Token.ofPlace? place = none := by
  rcases place with ⟨offset, piece⟩
  cases piece with
  | token kind text => simp [Piece.isSilent] at h
  | _ => rfl

theorem Issue.ofPlace?_silent (code : List Char) (place : Nat × Piece) (h : place.2.isSilent = true)
    : Issue.ofPlace? code place = none := by
  rcases place with ⟨offset, piece⟩
  cases piece with
  | invalid c => simp [Piece.isSilent] at h
  | unclosed text => simp [Piece.isSilent] at h
  | _ => rfl

theorem placed_add (offset distance : Nat) (pieces : List Piece)
    : placed (offset + distance) pieces =
      (placed offset pieces).map (fun place => (place.1 + distance, place.2)) := by
  induction pieces generalizing offset with
  | nil => rfl
  | cons piece rest ih =>
    rw [placed, placed, List.map_cons, Nat.add_right_comm, ih]

theorem Token.ofPieces_add (offset distance : Nat) (pieces : List Piece)
    : Token.ofPieces (offset + distance) pieces =
      (Token.ofPieces offset pieces).map (Token.shift distance) := by
  rw [Token.ofPieces_eq, Token.ofPieces_eq, placed_add, List.filterMap_map, List.map_filterMap]
  apply List.filterMap_congr
  rintro ⟨place, piece⟩ _
  cases piece with
  | token kind text => rfl
  | _ => rfl

theorem le_length_of_mem_placed {text : List Char} {place : Nat × Piece}
    (h : place ∈ placed 0 (pieces text)) : place.1 ≤ text.length := by
  have := add_length_le_of_mem_placed h
  rw [flatMap_text_pieces] at this
  omega

theorem Issue.ofPieces_append_left (left more : List Char)
    : Issue.ofPieces (left ++ more) 0 (pieces left) = Issue.ofPieces left 0 (pieces left) := by
  rw [Issue.ofPieces_eq, Issue.ofPieces_eq]
  apply List.filterMap_congr
  rintro ⟨offset, piece⟩ hmem
  have hposition := Position.of_append_left (le_length_of_mem_placed hmem) more
  cases piece with
  | invalid c => simp only [ofPlace?, atOffset, hposition]
  | unclosed text => simp only [ofPlace?, atOffset, hposition]
  | _ => rfl

theorem Issue.ofPieces_append_newline (left right : List Char)
    : Issue.ofPieces (left ++ '\n' :: right) (0 + (left.length + 1)) (pieces right) =
      (Issue.ofPieces right 0 (pieces right)).map (Issue.down (left.count '\n' + 1)) := by
  rw [Issue.ofPieces_eq, Issue.ofPieces_eq, placed_add, List.filterMap_map, List.map_filterMap]
  apply List.filterMap_congr
  rintro ⟨offset, piece⟩ hmem
  have hposition := Position.of_append_newline left (le_length_of_mem_placed hmem)
  rw [Nat.add_comm (left.length + 1)] at hposition
  cases piece with
  | invalid c => exact congrArg some (atOffset_down hposition _)
  | unclosed text => exact congrArg some (atOffset_down hposition _)
  | _ => rfl

theorem exists_unclosed_issue {code : String} {text : List Char}
    (h : .unclosed text ∈ words code.toList)
    : ∃ issue ∈ (tokenize code).issues, issue.message = "unclosed comment" := by
  have hpieces : .unclosed text ∈ pieces code.toList := (List.mem_filter.1 h).1
  rcases List.append_of_mem hpieces with ⟨left, right, hsplit⟩
  have hplace := (mem_placed_iff 0 _ _ _).2 ⟨left, right, hsplit, rfl⟩
  simp only [tokenize, Issue.ofPieces_eq]
  exact ⟨_, List.mem_filterMap.2 ⟨_, hplace, rfl⟩, rfl⟩

/--
Texts that are joined by a newline are divided one after the other, unless a comment is left open in the
first one. The tokens of the second text are moved by the characters before it, and its issues by the
lines before it.
-/
theorem tokenize_append_newline {left : String}
    (h : ∀ issue ∈ (tokenize left).issues, issue.message ≠ "unclosed comment") (right : String)
    : tokenize (left ++ "\n" ++ right) =
      { tokens := (tokenize left).tokens ++
          (tokenize right).tokens.map (Token.shift (left.length + 1))
        issues := (tokenize left).issues ++
          (tokenize right).issues.map (Issue.down (left.toList.count '\n' + 1)) } := by
  have hclosed : ∀ text, .unclosed text ∉ words left.toList := by
    intro text hmem
    rcases exists_unclosed_issue hmem with ⟨issue, hissue, hmessage⟩
    exact h issue hissue hmessage
  have htext : (left ++ "\n" ++ right).toList = left.toList ++ '\n' :: right.toList := by simp
  simp only [tokenize, htext, Tokenized.mk.injEq]
  constructor
  · rw [Token.ofPieces_eq, filterMap_placed_append_newline Token.ofPlace?_silent hclosed,
      ← Token.ofPieces_eq, ← Token.ofPieces_eq, Token.ofPieces_add, String.length_toList]
  · rw [Issue.ofPieces_eq, filterMap_placed_append_newline (Issue.ofPlace?_silent _) hclosed,
      ← Issue.ofPieces_eq, ← Issue.ofPieces_eq, Issue.ofPieces_append_left,
      Issue.ofPieces_append_newline]

theorem tokenize_append_newline_seam
    : (∀ issue ∈ (tokenize "x = /* a\n*/ λ* $/").issues, issue.message ≠ "unclosed comment") ∧
      tokenize ("x = /* a\n*/ λ* $/" ++ "\n" ++ "/ y\n /* z") =
        { tokens :=
            [{ kind := .name, text := "x", offset := 0 },
              { kind := .equals, text := "=", offset := 2 },
              { kind := .lambda, text := "λ", offset := 12 },
              { kind := .erased, text := "*", offset := 13 },
              { kind := .name, text := "y", offset := 20 }]
          issues :=
            [{ line := 2, column := 7, message := "invalid character '$'" },
              { line := 2, column := 8, message := "invalid character '/'" },
              { line := 3, column := 1, message := "invalid character '/'" },
              { line := 4, column := 2, message := "unclosed comment" }] } := by
  have hleft : tokenize "x = /* a\n*/ λ* $/" =
      { tokens :=
          [{ kind := .name, text := "x", offset := 0 },
            { kind := .equals, text := "=", offset := 2 },
            { kind := .lambda, text := "λ", offset := 12 },
            { kind := .erased, text := "*", offset := 13 }]
        issues :=
          [{ line := 2, column := 7, message := "invalid character '$'" },
            { line := 2, column := 8, message := "invalid character '/'" }] } := by cbv
  have hright : tokenize "/ y\n /* z" =
      { tokens := [{ kind := .name, text := "y", offset := 2 }]
        issues :=
          [{ line := 1, column := 1, message := "invalid character '/'" },
            { line := 2, column := 2, message := "unclosed comment" }] } := by cbv
  have hclosed : ∀ issue ∈ (tokenize "x = /* a\n*/ λ* $/").issues,
      issue.message ≠ "unclosed comment" := by
    rw [hleft]
    decide
  refine ⟨hclosed, ?_⟩
  rw [tokenize_append_newline hclosed, hleft, hright]
  cbv

end Source

end NamedLambda
