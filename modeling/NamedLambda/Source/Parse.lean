import NamedLambda.Source.Grammar

/-!
This module contains the reading of source texts into terms, statements and books.
-/

namespace NamedLambda.Source

/--
Why a text could not be read. `length` characters are at fault from the first issue on. Without `code`
there is no source line to show.
-/
structure SyntaxError where
  issues : List Issue
  code : Option String
  length : Int
  deriving DecidableEq, Repr, Inhabited

def Mismatch.toSyntaxError (code : String) (mismatch : Mismatch) : SyntaxError :=
  let expected := "expected " ++ mismatch.expected.text ++ ", found "
  match mismatch.found with
  | none =>
    { issues := [Issue.atOffset code.toList code.length (expected ++ "end of input")]
      code := some code
      length := 1 }
  | some token =>
    { issues := [Issue.atOffset code.toList token.offset (expected ++ "'" ++ token.text ++ "'")]
      code := some code
      length := token.text.length }

def parseWith {α : Type} (reader : List Token → Except Mismatch α) (code : String) :
    Except SyntaxError α :=
  let tokenized := tokenize code
  if tokenized.issues.isEmpty then
    (reader tokenized.tokens).mapError (Mismatch.toSyntaxError code)
  else
    .error { issues := tokenized.issues, code := some code, length := 1 }

def parseTerm (code : String) : Except SyntaxError Term :=
  parseWith readTerm code

def parseStatement (code : String) : Except SyntaxError Statement :=
  parseWith readStatement code

def parseBook (code : String) : Except SyntaxError Book :=
  (parseWith readDefinitions code).map Book.ofList

end NamedLambda.Source
