/-!
This module contains blank characters and the removal of blanks around a text.
-/

namespace NamedLambda.Text

/--
Whether a character is white space: the separators and the line, paragraph and information separators
among the control characters.
-/
def isBlank (c : Char) : Bool :=
  (9 ≤ c.toNat && c.toNat ≤ 13) || (28 ≤ c.toNat && c.toNat ≤ 32) || c.toNat == 0x85 ||
    c.toNat == 0xA0 || c.toNat == 0x1680 || (0x2000 ≤ c.toNat && c.toNat ≤ 0x200A) ||
    c.toNat == 0x2028 || c.toNat == 0x2029 || c.toNat == 0x202F || c.toNat == 0x205F ||
    c.toNat == 0x3000

def stripWith (removed : Char → Bool) (text : List Char) : List Char :=
  ((text.dropWhile removed).reverse.dropWhile removed).reverse

def strip (text : List Char) : List Char :=
  stripWith isBlank text

end NamedLambda.Text
