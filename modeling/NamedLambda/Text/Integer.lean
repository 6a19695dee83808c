import NamedLambda.Text.Blank

/-!
This module contains the reading of integers: an optional sign and decimal digits of any script, with
single underscores between them and blanks around them.
-/

namespace NamedLambda.Text

/--
The zeros of the decimal digits, in increasing order. The other nine digits follow each zero.
-/
def digitZeros : List Nat :=
  [48, 1632, 1776, 1984, 2406, 2534, 2662, 2790, 2918, 3046, 3174, 3302, 3430, 3558, 3664, 3792,
   3872, 4160, 4240, 6112, 6160, 6470, 6608, 6784, 6800, 6992, 7088, 7232, 7248, 42528, 43216,
   43264, 43472, 43504, 43600, 44016, 65296, 66720, 68912, 69734, 69872, 69942, 70096, 70384,
   70736, 70864, 71248, 71360, 71472, 71904, 72016, 72784, 73040, 73120, 92768, 92864, 93008,
   120782, 120792, 120802, 120812, 120822, 123200, 123632, 125264, 130032]

def digit? (c : Char) : Option Nat :=
  (digitZeros.find? (fun first => first ≤ c.toNat && c.toNat < first + 10)).map (c.toNat - ·)

def digits? : List Char → Option (List Nat)
  | [] => none
  | [c] => (digit? c).map ([·])
  | c :: '_' :: rest => do return (← digit? c) :: (← digits? rest)
  | c :: d :: rest => do return (← digit? c) :: (← digits? (d :: rest))

def ofDigits (values : List Nat) : Nat :=
  values.foldl (fun value digit => value * 10 + digit) 0

def maxDigits : Nat :=
  4300

def natural? (text : List Char) : Option Nat := do
  let values ← digits? text
  guard (values.length ≤ maxDigits)
  return ofDigits values

def leadingNatural (text : List Char) : Option Nat × List Char :=
  let isDigit (c : Char) : Bool := (digit? c).isSome
  match text.takeWhile isDigit with
  | [] => (none, text)
  | digits => (some (ofDigits (digits.filterMap digit?)), text.dropWhile isDigit)

def isSize (number : Nat) : Bool :=
  number < 0x8000000000000000

def isPadding (c : Char) : Bool :=
  isBlank c && !(28 ≤ c.toNat && c.toNat ≤ 31)

def integer? (text : String) : Option Int :=
  match stripWith isPadding text.toList with
  | '+' :: rest => (natural? rest).map Int.ofNat
  | '-' :: rest => (natural? rest).map (fun value => -Int.ofNat value)
  | rest => (natural? rest).map Int.ofNat

end NamedLambda.Text
