import NamedLambda.Text.Slice

/-!
This module contains lines of a text and the line and column of an offset in it.
-/

namespace NamedLambda.Text

def lines : List Char → List (List Char)
  | [] => [[]]
  | c :: rest =>
    if c = '\n' then [] :: lines rest
    else
      match lines rest with
      | [] => [[c]]
      | line :: more => (c :: line) :: more

def lastLineStart (text : List Char) : Nat :=
  text.length - (text.reverse.takeWhile (fun c => c != '\n')).length

structure Position where
  line : Int
  column : Int
  deriving DecidableEq, Repr, Inhabited

/--
The position of an offset. Past the end of the text the last line goes on.
-/
def Position.of (code : List Char) (offset : Int) : Position :=
  let before := slice code 0 offset
  { line := before.count '\n' + 1, column := offset - lastLineStart before + 1 }

end NamedLambda.Text
