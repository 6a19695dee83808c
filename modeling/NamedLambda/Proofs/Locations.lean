import NamedLambda.Proofs.Outline

/-!
This module contains the places in a text that tokens and issues name. The line and column of an offset
lead back to the offset and to its line, and they are in the order of the offsets.
-/

namespace NamedLambda

namespace Text

def lastLine (text : List Char) : List Char :=
  (text.reverse.takeWhile (fun c => c != '\n')).reverse

def firstLine (text : List Char) : List Char :=
  text.takeWhile (fun c => c != '\n')

theorem takeWhile_of_not_mem {text : List Char} (h : '\n' ∉ text) (more : List Char)
    : (text ++ more).takeWhile (fun c => c != '\n') = text ++ firstLine more := by
  apply List.takeWhile_append_of_pos
  intro c hmem
  rw [bne_iff_ne]
  exact fun heq => h (heq ▸ hmem)

theorem lastLine_of_not_mem {text : List Char} (h : '\n' ∉ text) : lastLine text = text := by
  have hreverse : '\n' ∉ text.reverse := by simpa using h
  have := takeWhile_of_not_mem hreverse []
  rw [List.append_nil] at this
  simp [lastLine, this, firstLine]

theorem takeWhile_append_stop {p : Char → Bool} {stop : Char} (h : p stop = false)
    (text more : List Char) : (text ++ stop :: more).takeWhile p = text.takeWhile p := by
  induction text with
  | nil => simp [h]
  | cons c rest ih =>
    rw [List.cons_append, List.takeWhile_cons, List.takeWhile_cons, ih]

theorem lastLine_append_newline (left right : List Char)
    : lastLine (left ++ '\n' :: right) = lastLine right := by
  rw [lastLine, List.reverse_append, List.reverse_cons, List.append_assoc, List.singleton_append,
    takeWhile_append_stop (by decide), lastLine]

theorem lastLine_append (left : List Char) {right : List Char} (h : '\n' ∉ right)
    : lastLine (left ++ right) = lastLine left ++ right := by
  have hreverse : '\n' ∉ right.reverse := by simpa using h
  have := takeWhile_of_not_mem hreverse left.reverse
  simp [lastLine, this, firstLine]

theorem exists_last_newline {text : List Char} (h : '\n' ∈ text)
    : ∃ left right, text = left ++ '\n' :: right ∧ '\n' ∉ right := by
  rcases List.eq_append_cons_of_mem (List.mem_reverse.2 h) with ⟨right, left, heq, hright⟩
  refine ⟨left.reverse, right.reverse, ?_, by simpa using hright⟩
  rw [← List.reverse_reverse text, heq]
  simp

theorem lines_append_newline (left right : List Char)
    : lines (left ++ '\n' :: right) = lines left ++ lines right := by
  induction left with
  | nil => simp [lines]
  | cons c left ih =>
    rw [List.cons_append, lines, lines, ih]
    split
    · rw [List.cons_append]
    · have hlength := length_lines left
      cases hlines : lines left with
      | nil => simp [hlines] at hlength
      | cons line more => simp

theorem head?_lines (text : List Char) : (lines text).head? = some (firstLine text) := by
  induction text with
  | nil => rfl
  | cons c rest ih =>
    rw [lines, firstLine, List.takeWhile_cons]
    split
    · next heq => simp [heq]
    · next hne =>
      cases hlines : lines rest with
      | nil => simp [hlines] at ih
      | cons line more =>
        rw [hlines, List.head?_cons, Option.some.injEq, firstLine] at ih
        simp [hne, ih]

theorem lines_append_of_not_mem {text : List Char} (h : '\n' ∉ text) (rest : List Char)
    : lines (text ++ rest) = (text ++ firstLine rest) :: (lines rest).tail := by
  induction text with
  | nil =>
    rcases List.head?_eq_some_iff.1 (head?_lines rest) with ⟨more, hmore⟩
    rw [List.nil_append, List.nil_append, hmore, List.tail_cons]
  | cons c text ih =>
    rw [List.mem_cons, not_or] at h
    rw [List.cons_append, lines, if_neg (Ne.symm h.1), ih h.2]
    rfl

/--
The line in which a text is divided consists of what stands in it before and after the division. The
lines before it do not depend on what stands after.
-/
theorem exists_lines_append (before : List Char)
    : ∃ earlier : List (List Char), earlier.length = before.count '\n' ∧
        ∀ rest, lines (before ++ rest) =
          earlier ++ (lastLine before ++ firstLine rest) :: (lines rest).tail := by
  by_cases hmem : '\n' ∈ before
  · rcases exists_last_newline hmem with ⟨left, right, heq, hright⟩
    refine ⟨lines left, ?_, ?_⟩
    · rw [heq, List.count_append, List.count_cons_self, List.count_eq_zero.2 hright, length_lines]
    · intro rest
      rw [heq, List.append_assoc, List.cons_append, lines_append_newline,
        lines_append_of_not_mem hright, lastLine_append_newline, lastLine_of_not_mem hright]
  · refine ⟨[], (List.count_eq_zero.2 hmem).symm, ?_⟩
    intro rest
    rw [lines_append_of_not_mem hmem, lastLine_of_not_mem hmem, List.nil_append]

theorem getElem?_lines (before rest : List Char)
    : (lines (before ++ rest))[before.count '\n']? = some (lastLine before ++ firstLine rest) := by
  rcases exists_lines_append before with ⟨earlier, hlength, hlines⟩
  rw [hlines, ← hlength, List.getElem?_append_right (Nat.le_refl _), Nat.sub_self,
    List.getElem?_cons_zero]

theorem Position.of_append (before rest : List Char)
    : Position.of (before ++ rest) before.length =
      { line := before.count '\n' + 1, column := (lastLine before).length + 1 } := by
  have hslice : slice (before ++ rest) 0 before.length = before := by
    have hpositive : ¬(before.length : Int) < 0 := by omega
    simp [slice, clamp, hpositive]
  have hlength : (lastLine before).length ≤ before.length := by
    have := (List.takeWhile_sublist (fun c => c != '\n') : List.Sublist _ before.reverse).length_le
    simpa [lastLine] using this
  simp only [Position.of, hslice, Position.mk.injEq, true_and]
  have hstart : lastLineStart before = before.length - (lastLine before).length := by
    simp [lastLineStart, lastLine]
  rw [hstart]
  omega

def Position.Before (left right : Position) : Prop :=
  left.line < right.line ∨ (left.line = right.line ∧ left.column < right.column)

theorem Position.Before.ne {left right : Position} (h : left.Before right) : left ≠ right := by
  intro heq
  subst heq
  unfold Before at h
  omega

theorem Position.before_append (before : List Char) {between : List Char} (h : between ≠ [])
    (rest : List Char)
    : (Position.of (before ++ (between ++ rest)) before.length).Before
        (Position.of ((before ++ between) ++ rest) (before ++ between).length) := by
  have hpos := List.length_pos_iff.2 h
  rw [Position.of_append, Position.of_append, List.count_append]
  by_cases hmem : '\n' ∈ between
  · left
    have := List.count_pos_iff.2 hmem
    simp only
    omega
  · right
    rw [List.count_eq_zero.2 hmem, lastLine_append before hmem, List.length_append]
    simp only
    omega

theorem Position.before_of_lt {code : List Char} {offset later : Nat} (hlt : offset < later)
    (hle : later ≤ code.length) : (Position.of code offset).Before (Position.of code later) := by
  have hbefore : (code.take offset).length = offset := List.length_take_of_le (by omega)
  have hbetween : ((code.drop offset).take (later - offset)).length = later - offset := by
    apply List.length_take_of_le
    rw [List.length_drop]
    omega
  have hne : (code.drop offset).take (later - offset) ≠ [] := by
    rw [← List.length_pos_iff]
    omega
  have h := Position.before_append (code.take offset) hne ((code.drop offset).drop (later - offset))
  rw [List.append_assoc, List.length_append, hbefore, hbetween, List.take_append_drop,
    List.take_append_drop, Nat.add_sub_cancel' (Nat.le_of_lt hlt)] at h
  exact h

theorem Position.of_inj {code : List Char} {offset other : Nat} (hoffset : offset ≤ code.length)
    (hother : other ≤ code.length) (h : Position.of code offset = Position.of code other)
    : offset = other := by
  apply Decidable.byContradiction
  intro hne
  by_cases hlt : offset < other
  · exact (Position.before_of_lt hlt hother).ne h
  · exact (Position.before_of_lt (by omega) hoffset).ne h.symm

end Text

namespace Source

open Text (lines item? firstLine lastLine Position)

/--
The pieces of a text with their offsets, where the first piece begins at `offset`.
-/
def placed (offset : Nat) : List Piece → List (Nat × Piece)
  | [] => []
  | piece :: rest => (offset, piece) :: placed (offset + piece.text.length) rest

theorem mem_placed_iff (offset place : Nat) (piece : Piece) (pieces : List Piece)
    : (place, piece) ∈ placed offset pieces ↔
      ∃ left right, pieces = left ++ piece :: right ∧
        place = offset + (left.flatMap Piece.text).length := by
  induction pieces generalizing offset with
  | nil => simp [placed]
  | cons first rest ih =>
    rw [placed, List.mem_cons, ih]
    constructor
    · intro h
      rcases h with heq | ⟨left, right, hrest, hplace⟩
      · rw [Prod.mk.injEq] at heq
        exact ⟨[], rest, by simp [heq.2], by simp [heq.1]⟩
      · refine ⟨first :: left, right, by rw [hrest, List.cons_append], ?_⟩
        rw [hplace, List.flatMap_cons, List.length_append]
        omega
    · intro h
      rcases h with ⟨left, right, hpieces, hplace⟩
      cases left with
      | nil =>
        left
        rw [List.nil_append, List.cons.injEq] at hpieces
        rw [Prod.mk.injEq]
        exact ⟨by simpa using hplace, hpieces.1.symm⟩
      | cons other left =>
        right
        rw [List.cons_append, List.cons.injEq] at hpieces
        refine ⟨left, right, hpieces.2, ?_⟩
        rw [hplace, List.flatMap_cons, List.length_append, hpieces.1]
        omega

def Token.ofPlace? : Nat × Piece → Option Token
  | (offset, .token kind text) => some { kind, text := String.ofList text, offset }
  | _ => none

def Issue.ofPlace? (code : List Char) : Nat × Piece → Option Issue
  | (offset, .invalid c) =>
    some (Issue.atOffset code offset ("invalid character '" ++ String.singleton c ++ "'"))
  | (offset, .unclosed _) => some (Issue.atOffset code offset "unclosed comment")
  | _ => none

theorem Token.ofPieces_eq (offset : Nat) (pieces : List Piece)
    : Token.ofPieces offset pieces = (placed offset pieces).filterMap Token.ofPlace? := by
  induction pieces generalizing offset with
  | nil => rfl
  | cons piece rest ih =>
    cases piece with
    | token kind text => exact congrArg (List.cons _) (ih _)
    | _ => exact ih _

theorem Issue.ofPieces_eq (code : List Char) (offset : Nat) (pieces : List Piece)
    : Issue.ofPieces code offset pieces = (placed offset pieces).filterMap (Issue.ofPlace? code) := by
  induction pieces generalizing offset with
  | nil => rfl
  | cons piece rest ih =>
    cases piece with
    | invalid c => exact congrArg (List.cons _) (ih _)
    | unclosed text => exact congrArg (List.cons _) (ih _)
    | _ => exact ih _

theorem Token.ofPlace?_eq_some_iff (place : Nat × Piece) (token : Token)
    : Token.ofPlace? place = some token ↔ place = (token.offset, token.piece) := by
  rcases place with ⟨offset, piece⟩
  cases piece with
  | token kind text => rw [Token.placed_eq_iff, ofPlace?, Option.some.injEq]
  | _ => simp [ofPlace?, piece]

theorem Issue.exists_eq_atOffset {code : List Char} {place : Nat × Piece} {issue : Issue}
    (h : Issue.ofPlace? code place = some issue)
    : ∃ message, issue = Issue.atOffset code place.1 message := by
  rcases place with ⟨offset, piece⟩
  cases piece with
  | invalid c => exact ⟨_, (Option.some.inj h).symm⟩
  | unclosed text => exact ⟨_, (Option.some.inj h).symm⟩
  | _ => simp [ofPlace?] at h

theorem Token.mem_tokenize_iff (code : String) (token : Token)
    : token ∈ (tokenize code).tokens ↔
      (token.offset, token.piece) ∈ placed 0 (pieces code.toList) := by
  simp only [tokenize, Token.ofPieces_eq, List.mem_filterMap, Token.ofPlace?_eq_some_iff]
  constructor
  · intro h
    rcases h with ⟨place, hmem, heq⟩
    rw [← heq]
    exact hmem
  · intro h
    exact ⟨_, h, rfl⟩

theorem mem_of_readTokens_error {σ α : Type} {next : σ → Token → Except Expected σ}
    {finish : σ → Except Expected α} {state : σ} {tokens : List Token} {mismatch : Mismatch}
    {token : Token} (h : readTokens next finish state tokens = .error mismatch)
    (hfound : mismatch.found = some token) : token ∈ tokens := by
  induction tokens generalizing state with
  | nil =>
    rw [readTokens] at h
    split at h
    · simp at h
    · rw [Except.error.injEq] at h
      simp [← h] at hfound
  | cons first rest ih =>
    rw [readTokens_cons] at h
    split at h
    · exact List.mem_cons_of_mem first (ih h)
    · rw [Except.error.injEq] at h
      simp only [← h, Option.some.injEq] at hfound
      rw [← hfound]
      exact List.mem_cons_self

end Source

end NamedLambda
