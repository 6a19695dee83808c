/-!
This module contains cutting and indexing by signed bounds: a negative bound counts from the end, and
a bound outside of the text is moved to its nearer end.
-/

namespace NamedLambda.Text

variable {α : Type}

/--
The offset in `0..length` that a signed bound stands for.
-/
def clamp (length : Nat) (bound : Int) : Nat :=
  min (if bound < 0 then bound + length else bound).toNat length

def slice (items : List α) (start stop : Int) : List α :=
  (items.drop (clamp items.length start)).take (clamp items.length stop - clamp items.length start)

def isIndex (number : Int) : Bool :=
  -0x8000000000000000 ≤ number && number < 0x8000000000000000

def item? (items : List α) (index : Int) : Option α :=
  if 0 ≤ index then items[index.toNat]?
  else if 0 ≤ index + items.length then items[(index + items.length).toNat]?
  else none

end NamedLambda.Text
