import NamedLambda.Failure

/-!
This module contains limits on the number of steps that a reduction takes.
-/

namespace NamedLambda

/--
A limit on the number of steps that reduce something. A limit that is asked for without a number is
blank, and no number of steps can be held against it.
-/
inductive Limit where
  | steps (count : Int)
  | blank
  deriving DecidableEq, Repr, Inhabited

namespace Limit

def exceeded? (limit : Limit) (made : Nat) : Option Failure :=
  match limit with
  | steps count => if count < made then some (.stepLimit count) else none
  | blank => some (.fault .blankLimit)

def allowance : Limit → Nat
  | steps count => count.toNat
  | blank => 0

theorem exceeded?_eq_none_iff (limit : Limit) (made : Nat) (h : 0 < made) :
    limit.exceeded? made = none ↔ made ≤ limit.allowance := by
  cases limit with
  | steps count =>
    simp only [exceeded?, allowance]
    split <;> simp <;> omega
  | blank =>
    simp [exceeded?, allowance]
    omega

end Limit

end NamedLambda
