import NamedLambda.Text.Integer

/-!
This module contains layouts: how much of a text is written, how wide, and what fills the room that is
left. A layout is described in a few characters: what fills the room and on which side the text stands,
the width, and the most characters of the text after a point. The description has the form of one for
numbers, and what only numbers can have is refused.
-/

namespace NamedLambda.Text

inductive Alignment where
  | left
  | right
  | centre
  deriving DecidableEq, Repr, Inhabited

structure Layout where
  fill : Char
  alignment : Alignment
  width : Option Nat
  precision : Option Nat
  deriving DecidableEq, Repr, Inhabited

inductive LayoutError where
  | tooManyDigits
  | bothSeparators
  | noPrecision
  | malformed (description : String)
  | misplacedSeparator (separator code : Char)
  | unknownCode (code : Char)
  | space
  | sign
  | negativeZero
  | alternate
  | betweenSignAndDigits
  deriving DecidableEq, Repr, Inhabited

def nameChar (last : Nat) (c : Char) : String :=
  if 32 < c.toNat && c.toNat ≤ last then String.singleton c
  else "\\x" ++ String.ofList (Nat.toDigits 16 c.toNat)

def LayoutError.message : LayoutError → String
  | tooManyDigits => "Too many decimal digits in format string"
  | bothSeparators => "Cannot specify both ',' and '_'."
  | noPrecision => "Format specifier missing precision"
  | malformed description =>
    "Invalid format specifier '" ++ description ++ "' for object of type 'str'"
  | misplacedSeparator separator code =>
    "Cannot specify '" ++ String.singleton separator ++ "' with '" ++ nameChar 127 code ++ "'."
  | unknownCode code =>
    "Unknown format code '" ++ nameChar 127 code ++ "' for object of type 'str'"
  | space => "Space not allowed in string format specifier"
  | sign => "Sign not allowed in string format specifier"
  | negativeZero => "Negative zero coercion (z) not allowed in string format specifier"
  | alternate => "Alternate form (#) not allowed in string format specifier"
  | betweenSignAndDigits => "'=' alignment not allowed in string format specifier"

namespace Layout

def apply (layout : Layout) (text : List Char) : List Char :=
  let shown :=
    match layout.precision with
    | some precision => text.take precision
    | none => text
  let room := layout.width.getD 0 - shown.length
  let before :=
    match layout.alignment with
    | .left => 0
    | .right => room
    | .centre => room / 2
  List.replicate before layout.fill ++ shown ++ List.replicate (room - before) layout.fill

def takeIf (wanted : Char → Bool) : List Char → Option Char × List Char
  | c :: rest => if wanted c then (some c, rest) else (none, c :: rest)
  | [] => (none, [])

def isAlignment (c : Char) : Bool :=
  c == '<' || c == '>' || c == '^' || c == '='

def takeAlignment : List Char → Option Char × Option Char × List Char
  | c :: d :: rest =>
    if isAlignment d then (some c, some d, rest)
    else if isAlignment c then (none, some c, d :: rest)
    else (none, none, c :: d :: rest)
  | [c] => if isAlignment c then (none, some c, []) else (none, none, [c])
  | [] => (none, none, [])

def takeNumber (text : List Char) : Except LayoutError (Option Nat × List Char) :=
  match leadingNatural text with
  | (some number, rest) =>
    if isSize number then .ok (some number, rest) else .error .tooManyDigits
  | (none, rest) => .ok (none, rest)

def takeSeparator (text : List Char) : Except LayoutError (Option Char × List Char) :=
  match text with
  | ',' :: '_' :: _ => .error .bothSeparators
  | ',' :: rest => .ok (some ',', rest)
  | '_' :: ',' :: _ => .error .bothSeparators
  | '_' :: rest => .ok (some '_', rest)
  | _ => .ok (none, text)

def takePrecision : List Char → Except LayoutError (Option Nat × List Char)
  | '.' :: rest => do
    match ← takeNumber rest with
    | (some number, rest) => return (some number, rest)
    | (none, _) => throw .noPrecision
  | rest => .ok (none, rest)

def separates (separator code : Char) : Bool :=
  "defgEGF%\x00".toList.contains code || separator == '_' && "boxX".toList.contains code

/--
Read a description. Its code, which is last, has to be `s`, the one for texts.
-/
def parse (description : List Char) : Except LayoutError Layout := do
  let (fill, alignment, rest) := takeAlignment description
  let (sign, rest) := takeIf (fun c => c == ' ' || c == '+' || c == '-') rest
  let (zero, rest) := takeIf (· == 'z') rest
  let (alternate, rest) := takeIf (· == '#') rest
  let (padding, rest) := takeIf (fun c => fill.isNone && c == '0') rest
  let (width, rest) ← takeNumber rest
  let (separator, rest) ← takeSeparator rest
  let (precision, rest) ← takePrecision rest
  let code ←
    match rest with
    | [] => pure 's'
    | [code] => pure code
    | _ => throw (.malformed (String.ofList description))
  if let some separator := separator then
    unless separates separator code do throw (.misplacedSeparator separator code)
  unless code == 's' do throw (.unknownCode code)
  if let some sign := sign then
    throw (if sign == ' ' then .space else .sign)
  if zero.isSome then throw .negativeZero
  if alternate.isSome then throw .alternate
  let alignment ←
    match alignment with
    | some '>' => pure Alignment.right
    | some '^' => pure Alignment.centre
    | some '=' => throw .betweenSignAndDigits
    | _ => pure Alignment.left
  return { fill := (fill <|> padding).getD ' ', alignment, width, precision }

end Layout

end NamedLambda.Text
