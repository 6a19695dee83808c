import NamedLambda.Fault
import NamedLambda.Text.Slice

/-!
This module contains block comments. They are nested: the scan counts openings and closings.
-/

namespace NamedLambda.Source.Comment

/--
The number of characters up to and with the delimiter at which the nesting depth becomes zero, where
the delimiters `/*` and `*/` are read from left to right and do not overlap.
-/
def closing? (depth : Int) : List Char → Option Nat
  | '/' :: '*' :: rest =>
    if depth + 1 = 0 then some 2 else (closing? (depth + 1) rest).map (· + 2)
  | '*' :: '/' :: rest =>
    if depth - 1 = 0 then some 2 else (closing? (depth - 1) rest).map (· + 2)
  | _ :: rest => (closing? depth rest).map (· + 1)
  | [] => none

theorem two_le_of_closing? {depth : Int} {text : List Char} {n : Nat}
    (h : closing? depth text = some n) : 2 ≤ n := by
  fun_induction closing? depth text generalizing n with
  | case1 => simp_all
  | case2 depth rest _ ih =>
    obtain ⟨m, _, rfl⟩ := Option.map_eq_some_iff.1 h
    omega
  | case3 => simp_all
  | case4 depth rest _ ih =>
    obtain ⟨m, _, rfl⟩ := Option.map_eq_some_iff.1 h
    omega
  | case5 depth c rest _ _ ih =>
    obtain ⟨m, hm, rfl⟩ := Option.map_eq_some_iff.1 h
    have := ih hm
    omega
  | case6 => simp at h

def skip? (code : List Char) (offset : Int) : Option Nat :=
  (closing? 0 (code.drop offset.toNat)).map (· + offset.toNat)

def skip (code : List Char) (offset : Int) : Except Fault (Option Nat) :=
  if Text.isIndex offset then .ok (skip? code offset) else .error .offsetTooLarge

end NamedLambda.Source.Comment
