import NamedLambda.Text.Printable

/-!
This module contains quoted texts: a text between quotation marks, in which the mark itself, the
backslash and all that cannot be printed are escaped.
-/

namespace NamedLambda.Text

def hexadecimal (width value : Nat) : String :=
  let digits := Nat.toDigits 16 value
  String.ofList (List.replicate (width - digits.length) '0' ++ digits)

/--
The mark around a text: an apostrophe, unless the text has one and has no double quotation mark.
-/
def quotationMark (text : List Char) : Char :=
  if text.contains '\x27' && !text.contains '\x22' then '\x22' else '\x27'

def escape (canShow : Char → Bool) (mark c : Char) : String :=
  if c = mark || c = '\x5c' then String.ofList ['\x5c', c]
  else if c = '\n' then "\\n"
  else if c = '\r' then "\\r"
  else if c = '\t' then "\\t"
  else if canShow c then String.singleton c
  else if c.toNat < 0x100 then "\\x" ++ hexadecimal 2 c.toNat
  else if c.toNat < 0x10000 then "\\u" ++ hexadecimal 4 c.toNat
  else "\\U" ++ hexadecimal 8 c.toNat

def quoteWith (canShow : Char → Bool) (text : String) : String :=
  let mark := quotationMark text.toList
  String.singleton mark ++ String.join (text.toList.map (escape canShow mark))
    ++ String.singleton mark

def quote (text : String) : String :=
  quoteWith isPrintable text

def quoteAscii (text : String) : String :=
  quoteWith (fun c => isPrintable c && c.toNat < 0x80) text

end NamedLambda.Text
