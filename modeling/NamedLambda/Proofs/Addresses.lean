import Mathlib.Algebra.Ring.Nat
import NamedLambda.Proofs.Locations

/-!
This module contains the addresses of a text, which are a line and a column in it. Every offset of the
text has one address, and the order of the addresses is that of the offsets.
-/

namespace NamedLambda.Text

/--
The number of characters in the first `count` lines of a text, with the newline after each of them.
-/
def lineOffset (code : List Char) (count : Nat) : Nat :=
  (((lines code).take count).map (fun line => line.length + 1)).sum

theorem sum_lines (text : List Char)
    : ((lines text).map (fun line => line.length + 1)).sum = text.length + 1 := by
  induction text with
  | nil => rfl
  | cons c rest ih =>
    rw [lines]
    split
    · rw [List.map_cons, List.sum_cons, ih, List.length_nil, List.length_cons]
      omega
    · have hlength := length_lines rest
      cases hlines : lines rest with
      | nil => simp [hlines] at hlength
      | cons line more =>
        rw [hlines, List.map_cons, List.sum_cons] at ih
        rw [List.map_cons, List.sum_cons, List.length_cons, List.length_cons]
        omega

theorem lineOffset_succ {code line : List Char} {index : Nat} (h : (lines code)[index]? = some line)
    : lineOffset code (index + 1) = lineOffset code index + (line.length + 1) := by
  simp [lineOffset, List.take_add_one, h]

theorem lineOffset_mono (code : List Char) {count more : Nat} (h : count ≤ more)
    : lineOffset code count ≤ lineOffset code more := by
  rcases Nat.exists_eq_add_of_le h with ⟨added, hadded⟩
  rw [lineOffset, lineOffset, hadded, List.take_add, List.map_append, List.sum_append]
  exact Nat.le_add_right _ _

theorem lineOffset_le (code : List Char) (count : Nat) : lineOffset code count ≤ code.length + 1 := by
  have hsplit := List.take_append_drop count (lines code)
  rw [← sum_lines, lineOffset, ← hsplit, List.map_append, List.sum_append, hsplit]
  exact Nat.le_add_right _ _

theorem lineOffset_count (before rest : List Char)
    : lineOffset (before ++ rest) (before.count '\n') + (lastLine before).length = before.length := by
  rcases exists_lines_append before with ⟨earlier, hlength, hlines⟩
  have hearlier : lines before = earlier ++ [lastLine before] := by
    have := hlines []
    rwa [List.append_nil, firstLine, List.takeWhile_nil, List.append_nil] at this
  have hsum := sum_lines before
  rw [hearlier, List.map_append, List.sum_append, List.map_singleton, List.sum_singleton] at hsum
  rw [lineOffset, hlines, ← hlength, List.take_left]
  omega

/--
The line is one of a text, the column goes from the beginning of this line to right after its end, and
there is the offset.
-/
structure Position.Addresses (position : Position) (code : List Char) (offset : Int) : Prop where
  line_pos : 1 ≤ position.line
  line_le : position.line ≤ (lines code).length
  column_pos : 1 ≤ position.column
  column_le : ∃ line, item? (lines code) (position.line - 1) = some line ∧
    position.column ≤ line.length + 1
  offset_eq : lineOffset code (position.line - 1).toNat + (position.column - 1) = offset

theorem Position.addresses_iff (position : Position) (code : List Char) (offset : Int)
    : position.Addresses code offset ↔
      ∃ (index column : Nat) (line : List Char), (lines code)[index]? = some line ∧
        column ≤ line.length ∧ position = { line := index + 1, column := column + 1 } ∧
        offset = lineOffset code index + column := by
  rcases position with ⟨number, column⟩
  constructor
  · rintro ⟨hnumber, _, hcolumn, ⟨line, hline, hend⟩, hoffset⟩
    rcases Int.eq_ofNat_of_zero_le (Int.sub_nonneg_of_le hnumber) with ⟨index, hindex⟩
    rcases Int.eq_ofNat_of_zero_le (Int.sub_nonneg_of_le hcolumn) with ⟨before, hbefore⟩
    simp only at hnumber hcolumn hline hend hoffset hindex hbefore
    rw [hindex, item?, if_pos (Int.natCast_nonneg index), Int.toNat_natCast] at hline
    rw [hindex, Int.toNat_natCast, hbefore] at hoffset
    refine ⟨index, before, line, hline, by omega, ?_, hoffset.symm⟩
    rw [Position.mk.injEq]
    omega
  · rintro ⟨index, before, line, hline, hend, hposition, hoffset⟩
    rw [Position.mk.injEq] at hposition
    have hindex : number - 1 = index := by omega
    have hlt := (List.getElem?_eq_some_iff.1 hline).1
    exact
      { line_pos := by simp only; omega
        line_le := by simp only; omega
        column_pos := by simp only; omega
        column_le := by
          refine ⟨line, ?_, by simp only; omega⟩
          rw [hindex, item?, if_pos (Int.natCast_nonneg index), Int.toNat_natCast]
          exact hline
        offset_eq := by
          rw [hindex, Int.toNat_natCast, hoffset]
          simp only
          omega }

theorem Position.addresses_of_append (before rest : List Char)
    : (Position.of (before ++ rest) before.length).Addresses (before ++ rest) before.length := by
  rw [Position.of_append, addresses_iff]
  refine ⟨before.count '\n', (lastLine before).length, _, getElem?_lines before rest, ?_, rfl, ?_⟩
  · rw [List.length_append]
    omega
  · have := lineOffset_count before rest
    omega

theorem Position.Addresses.bounds {position : Position} {code : List Char} {offset : Int}
    (h : position.Addresses code offset) : 0 ≤ offset ∧ offset ≤ code.length := by
  rcases (addresses_iff position code offset).1 h with ⟨index, column, line, hline, hend, _, hoffset⟩
  have hnext := lineOffset_le code (index + 1)
  rw [lineOffset_succ hline] at hnext
  omega

-- A line ends before the next one begins, so that different lines address different offsets.
theorem Position.Addresses.unique {position other : Position} {code : List Char} {offset : Int}
    (h : position.Addresses code offset) (h' : other.Addresses code offset) : position = other := by
  rcases (addresses_iff position code offset).1 h with
    ⟨index, column, line, hline, hend, hposition, hoffset⟩
  rcases (addresses_iff other code offset).1 h' with
    ⟨index', column', line', hline', hend', hother, hoffset'⟩
  have hsucc := lineOffset_succ hline
  have hsucc' := lineOffset_succ hline'
  rcases Nat.lt_trichotomy index index' with hlt | heq | hgt
  · have hle : lineOffset code (index + 1) ≤ lineOffset code index' := lineOffset_mono code hlt
    omega
  · subst heq
    have hcolumn : column = column' := by omega
    rw [hposition, hother, hcolumn]
  · have hle : lineOffset code (index' + 1) ≤ lineOffset code index := lineOffset_mono code hgt
    omega

theorem Position.of_addresses {code : List Char} {offset : Int} (hpos : 0 ≤ offset)
    (hle : offset ≤ code.length) : (Position.of code offset).Addresses code offset := by
  rcases Int.eq_ofNat_of_zero_le hpos with ⟨place, hplace⟩
  subst hplace
  have hlength : (code.take place).length = place := List.length_take_of_le (by omega)
  have h := addresses_of_append (code.take place) (code.drop place)
  rw [List.take_append_drop, hlength] at h
  exact h

/--
Line and column of an offset address it, and every other address is of another offset. So different
offsets have different lines or columns, and a later offset comes later in the order of line and column.
-/
theorem Position.of_inverts_addresses (code : List Char)
    : (∀ offset : Int, 0 ≤ offset → offset ≤ code.length →
        (Position.of code offset).Addresses code offset) ∧
      (∀ (position : Position) (offset : Int), position.Addresses code offset →
        0 ≤ offset ∧ offset ≤ code.length ∧ Position.of code offset = position) ∧
      ∀ offset other : Int, 0 ≤ offset → offset ≤ code.length → 0 ≤ other → other ≤ code.length →
        (Position.of code offset = Position.of code other → offset = other) ∧
        (offset < other → (Position.of code offset).Before (Position.of code other)) := by
  refine ⟨?_, ?_, ?_⟩
  · intro offset hpos hle
    exact of_addresses hpos hle
  · intro position offset h
    rcases h.bounds with ⟨hpos, hle⟩
    exact ⟨hpos, hle, (of_addresses hpos hle).unique h⟩
  · intro offset other hpos hle hpos' hle'
    constructor
    · intro heq
      rw [← (of_addresses hpos hle).offset_eq, heq, (of_addresses hpos' hle').offset_eq]
    · intro hlt
      rcases Int.eq_ofNat_of_zero_le hpos with ⟨place, hplace⟩
      rcases Int.eq_ofNat_of_zero_le hpos' with ⟨later, hlater⟩
      subst hplace hlater
      apply before_of_lt
      · omega
      · omega

theorem Position.of_inverts_addresses_emptyLine
    : let code := ['λ', '\n', '\n', 'x']
      (∀ position : Position, position.Addresses code 2 ↔ position = { line := 2, column := 1 }) ∧
        Position.Addresses { line := 3, column := 2 } code 4 ∧
        Position.Before { line := 1, column := 2 } { line := 2, column := 1 } := by
  intro code
  have hempty : Position.of code 2 = { line := 2, column := 1 } := by decide
  have hend : Position.of code 4 = { line := 3, column := 2 } := by decide
  have hnewline : Position.of code 1 = { line := 1, column := 2 } := by decide
  rcases of_inverts_addresses code with ⟨haddresses, hunique, hordered⟩
  refine ⟨?_, ?_, ?_⟩
  · intro position
    constructor
    · intro h
      rw [← hempty, (hunique position 2 h).2.2]
    · intro h
      rw [h, ← hempty]
      exact haddresses 2 (by decide) (by decide)
  · rw [← hend]
    exact haddresses 4 (by decide) (by decide)
  · rw [← hnewline, ← hempty]
    exact (hordered 1 2 (by decide) (by decide) (by decide) (by decide)).2 (by decide)

end NamedLambda.Text
