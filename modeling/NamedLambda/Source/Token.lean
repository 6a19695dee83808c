import NamedLambda.Source.Piece
import NamedLambda.Text.Position

/-!
This module contains tokens with their offsets, and the issues found while a text is divided into them.
-/

namespace NamedLambda.Source

open Text (Position)

structure Token where
  kind : Kind
  text : String
  offset : Nat
  deriving DecidableEq, Repr, Inhabited

structure Issue where
  line : Int
  column : Int
  message : String
  deriving DecidableEq, Repr, Inhabited

namespace Issue

def atOffset (code : List Char) (offset : Nat) (message : String) : Issue :=
  let position := Position.of code offset
  { line := position.line, column := position.column, message }

def render (issue : Issue) : String :=
  toString issue.line ++ ":" ++ toString issue.column ++ ": " ++ issue.message

end Issue

def Token.ofPieces (offset : Nat) : List Piece → List Token
  | [] => []
  | piece :: rest =>
    let more := ofPieces (offset + piece.text.length) rest
    match piece with
    | .token kind text => { kind, text := String.ofList text, offset } :: more
    | _ => more

def Issue.ofPieces (code : List Char) (offset : Nat) : List Piece → List Issue
  | [] => []
  | piece :: rest =>
    let more := ofPieces code (offset + piece.text.length) rest
    match piece with
    | .invalid c => Issue.atOffset code offset ("invalid character '" ++ String.singleton c ++ "'") :: more
    | .unclosed _ => Issue.atOffset code offset "unclosed comment" :: more
    | _ => more

structure Tokenized where
  tokens : List Token
  issues : List Issue
  deriving DecidableEq, Repr, Inhabited

/--
Divide a text into tokens. Invalid characters are passed over, so that every one of them is reported.
-/
def tokenize (code : String) : Tokenized :=
  let text := code.toList
  { tokens := Token.ofPieces 0 (pieces text), issues := Issue.ofPieces text 0 (pieces text) }

end NamedLambda.Source
