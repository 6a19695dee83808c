import NamedLambda.CommandLine.Options
import NamedLambda.Text.Integer

/-!
This module contains single arguments and how options and values are told apart.
-/

namespace NamedLambda.CommandLine

/--
An argument by itself. A letter may be followed by more characters in the same argument, and a word by
a value after an equals sign.
-/
inductive Argument where
  | value (text : String)
  | separator
  | letter (flag : Flag) (more : List Char)
  | word (flag : Flag) (attached : Option (List Char))
  | unknown (text : String)
  deriving DecidableEq, Repr, Inhabited

namespace Argument

def isNegativeNumber (text : List Char) : Bool :=
  match text with
  | '-' :: rest =>
    let digits := if rest.getLast? = some '\n' then rest.dropLast else rest
    let isDigit (c : Char) : Bool := (Text.digit? c).isSome
    let whole := digits.takeWhile isDigit
    match digits.dropWhile isDigit with
    | [] => !whole.isEmpty
    | '.' :: decimals => !decimals.isEmpty && decimals.all isDigit
    | _ => false
  | _ => false

def other (text : List Char) : Argument :=
  if isNegativeNumber text || text.contains ' ' then value (String.ofList text)
  else unknown (String.ofList text)

def ofString (text : String) : Except Refusal Argument :=
  match text.toList with
  | '-' :: '-' :: rest =>
    let name := rest.takeWhile (· != '=')
    let attached := (rest.dropWhile (· != '=')).tail?
    match Flag.all.filter (fun flag => name.isPrefixOf flag.word.toList) with
    | [] => .ok (other text.toList)
    | [flag] => .ok (.word flag attached)
    | flags => .error (.mistake (.ambiguous text flags))
  | '-' :: c :: more =>
    match Flag.ofLetter? c with
    | some flag => .ok (.letter flag more)
    | none => .ok (other text.toList)
  | _ => .ok (.value text)

def ofStrings : List String → Except Refusal (List Argument)
  | [] => .ok []
  | text :: rest =>
    if text = "--" then .ok (.separator :: rest.map .value)
    else do return (← ofString text) :: (← ofStrings rest)

end Argument

end NamedLambda.CommandLine
