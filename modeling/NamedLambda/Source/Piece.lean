import NamedLambda.Source.Comment

/-!
This module contains the division of a source text into pieces: tokens, blank runs, comments and
characters that belong to neither. The pieces of a text, put together, are the text.
-/

namespace NamedLambda.Source

inductive Kind where
  | name
  | lambda
  | erased
  | equals
  | leftParen
  | rightParen
  deriving DecidableEq, Repr, Inhabited

/--
A piece of source text. An `unclosed` comment takes all that is left of the text.
-/
inductive Piece where
  | token (kind : Kind) (text : List Char)
  | blank (text : List Char)
  | lineComment (text : List Char)
  | blockComment (text : List Char)
  | invalid (char : Char)
  | unclosed (text : List Char)
  deriving DecidableEq, Repr

namespace Piece

def text : Piece → List Char
  | token _ text => text
  | blank text => text
  | lineComment text => text
  | blockComment text => text
  | invalid char => [char]
  | unclosed text => text

def isNameStart (c : Char) : Bool :=
  c == '_' || c == '.' || c.isAlpha

def isNameChar (c : Char) : Bool :=
  isNameStart c || c.isDigit

def isBlank (c : Char) : Bool :=
  c == ' ' || c == '\t' || c == '\x0c' || c == '\r' || c == '\n'

def symbol? : Char → Option Kind
  | '@' => some .lambda
  | 'λ' => some .lambda
  | '*' => some .erased
  | '=' => some .equals
  | '(' => some .leftParen
  | ')' => some .rightParen
  | _ => none

def next (c : Char) (rest : List Char) : Piece × List Char :=
  if isNameStart c then
    (token .name (c :: rest.takeWhile isNameChar), rest.dropWhile isNameChar)
  else if isBlank c then
    (blank (c :: rest.takeWhile isBlank), rest.dropWhile isBlank)
  else
    match symbol? c with
    | some kind => (token kind [c], rest)
    | none =>
      match c, rest with
      | '/', '/' :: _ =>
        (lineComment (c :: rest.takeWhile (· != '\n')), rest.dropWhile (· != '\n'))
      | '/', '*' :: _ =>
        match Comment.closing? 0 (c :: rest) with
        | some n => (blockComment ((c :: rest).take n), (c :: rest).drop n)
        | none => (unclosed (c :: rest), [])
      | _, _ => (invalid c, rest)

theorem next_append (c : Char) (rest : List Char) :
    (next c rest).1.text ++ (next c rest).2 = c :: rest := by
  unfold next
  split
  · simp [text]
  · split
    · simp [text]
    · split
      · simp [text]
      · split
        · simp [text]
        · split <;> simp [text]
        · simp [text]

theorem length_next_lt (c : Char) (rest : List Char) :
    (next c rest).2.length < (c :: rest).length := by
  have text_ne : 0 < (next c rest).1.text.length := by
    unfold next
    split
    · simp [text]
    · split
      · simp [text]
      · split
        · simp [text]
        · split
          · simp [text]
          · split
            · rename_i n h
              have := Comment.two_le_of_closing? h
              simp only [text, List.length_take, List.length_cons]
              omega
            · simp [text]
          · simp [text]
  have := congrArg List.length (next_append c rest)
  simp only [List.length_append] at this
  omega

end Piece

def pieces : List Char → List Piece
  | [] => []
  | c :: rest => (Piece.next c rest).1 :: pieces (Piece.next c rest).2
termination_by text => text.length
decreasing_by exact Piece.length_next_lt c rest

theorem pieces_nil : pieces [] = [] := by
  rw [pieces]

theorem pieces_cons (c : Char) (rest : List Char) :
    pieces (c :: rest) = (Piece.next c rest).1 :: pieces (Piece.next c rest).2 := by
  rw [pieces]

theorem flatMap_text_pieces (text : List Char) : (pieces text).flatMap Piece.text = text := by
  fun_induction pieces text with
  | case1 => rfl
  | case2 c rest ih => rw [List.flatMap_cons, ih, Piece.next_append]

end NamedLambda.Source
