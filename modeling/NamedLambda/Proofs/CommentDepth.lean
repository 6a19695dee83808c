import NamedLambda.Proofs.NestedComments

/-!
This module contains the comments of a text by their offsets, and the depth of nesting at its delimiters.
The scan from an opening on ends right after the closing that belongs to it. This is the first delimiter at
which the depth is zero, and the depth is positive at every one before.
-/

namespace NamedLambda.Source.Comment

def OpensAt (code : List Char) (offset : Nat) : Prop :=
  ['/', '*'] <+: code.drop offset

def ClosesAt (code : List Char) (offset : Nat) : Prop :=
  ['*', '/'] <+: code.drop offset

instance (code : List Char) (offset : Nat) : Decidable (OpensAt code offset) :=
  inferInstanceAs (Decidable (['/', '*'] <+: code.drop offset))

/--
Comments and single characters, from one offset of a text up to another. At such a character no delimiter
begins in the text.
-/
inductive Items (code : List Char) : Nat → Nat → Prop where
  | nil (offset : Nat) : Items code offset offset
  | comment {start inner stop : Nat} (hopen : OpensAt code start)
      (hitems : Items code (start + 2) inner) (hclose : ClosesAt code inner)
      (hrest : Items code (inner + 2) stop)
    : Items code start stop
  | char {start stop : Nat} (hlt : start < code.length) (hopen : ¬OpensAt code start)
      (hclose : ¬ClosesAt code start) (hrest : Items code (start + 1) stop)
    : Items code start stop

/--
A comment from one offset of a text up to another: an opening, items and a closing.
-/
def IsCommentAt (code : List Char) (start stop : Nat) : Prop :=
  ∃ inner, OpensAt code start ∧ Items code (start + 2) inner ∧ ClosesAt code inner ∧
    stop = inner + 2

theorem beginsDelimiter_drop_iff (code : List Char) (offset : Nat)
    : BeginsDelimiter (code.drop offset) ↔ OpensAt code offset ∨ ClosesAt code offset := by
  rfl

theorem OpensAt.exists_drop_eq {code : List Char} {offset : Nat} (h : OpensAt code offset)
    : ∃ rest, code.drop offset = '/' :: '*' :: rest ∧ code.drop (offset + 2) = rest := by
  rcases h with ⟨rest, heq⟩
  refine ⟨rest, heq.symm, ?_⟩
  rw [← List.drop_drop, ← heq]
  rfl

theorem ClosesAt.exists_drop_eq {code : List Char} {offset : Nat} (h : ClosesAt code offset)
    : ∃ rest, code.drop offset = '*' :: '/' :: rest ∧ code.drop (offset + 2) = rest := by
  rcases h with ⟨rest, heq⟩
  refine ⟨rest, heq.symm, ?_⟩
  rw [← List.drop_drop, ← heq]
  rfl

theorem drop_of_drop_eq_append {code rest : List Char} {offset : Nat} (text : List Char)
    (h : code.drop offset = text ++ rest) : code.drop (offset + text.length) = rest := by
  rw [← List.drop_drop, h, List.drop_left]

/-!
Items that a closing follows are the body of a comment, whatever stands after it in the text.
-/

theorem Items.exists_body {code : List Char} {start stop : Nat} (h : Items code start stop)
    (hclose : ClosesAt code stop)
    : ∃ body rest, code.drop start = body ++ rest ∧ Body body ∧ start + body.length = stop + 2 := by
  induction h with
  | nil offset =>
    rcases hclose.exists_drop_eq with ⟨rest, hdrop, _⟩
    exact ⟨['*', '/'], rest, hdrop, .close, rfl⟩
  | @comment start inner stop hopen _ hinner _ ihitems ihrest =>
    rcases hopen.exists_drop_eq with ⟨text, hdrop, hafter⟩
    rcases ihitems hinner with ⟨body, more, hbodydrop, hbody, hbodylength⟩
    rcases ihrest hclose with ⟨others, rest, hothersdrop, hothers, hotherslength⟩
    have hmore : more = others ++ rest := by
      rw [← hothersdrop, ← hbodylength]
      exact (drop_of_drop_eq_append body hbodydrop).symm
    refine ⟨'/' :: '*' :: (body ++ others), rest, ?_, .nested hbody hothers, ?_⟩
    · rw [hdrop, ← hafter, hbodydrop, hmore]
      simp
    · simp only [List.length_cons, List.length_append]
      omega
  | @char start stop hlt hopen hplain _ ih =>
    rcases ih hclose with ⟨body, rest, hdrop, hbody, hlength⟩
    have hcons : code.drop start = code[start] :: (body ++ rest) := by
      rw [← hdrop, List.drop_eq_getElem_cons hlt]
    refine ⟨code[start] :: body, rest, hcons, .char ?_ hbody, ?_⟩
    · rw [← beginsDelimiter_append_iff _ hbody.ne_nil rest, ← hcons, beginsDelimiter_drop_iff]
      exact not_or.2 ⟨hopen, hplain⟩
    · rw [List.length_cons]
      omega

theorem Body.exists_items {code body rest : List Char} {start : Nat} (h : Body body)
    (hdrop : code.drop start = body ++ rest)
    : ∃ stop, Items code start stop ∧ ClosesAt code stop ∧ start + body.length = stop + 2 := by
  induction h generalizing start rest with
  | close => exact ⟨start, .nil start, ⟨rest, hdrop.symm⟩, rfl⟩
  | @nested body others _ _ ihbody ihothers =>
    have hopen : OpensAt code start := ⟨body ++ others ++ rest, by rw [hdrop]; rfl⟩
    have hinside : code.drop (start + 2) = body ++ (others ++ rest) := by
      rw [← List.append_assoc]
      exact drop_of_drop_eq_append ['/', '*'] hdrop
    rcases ihbody hinside with ⟨inner, hitems, hinner, hbodylength⟩
    have hafter : code.drop (inner + 2) = others ++ rest := by
      rw [← hbodylength]
      exact drop_of_drop_eq_append body hinside
    rcases ihothers hafter with ⟨stop, hrest, hclose, hotherslength⟩
    refine ⟨stop, .comment hopen hitems hinner hrest, hclose, ?_⟩
    simp only [List.length_cons, List.length_append]
    omega
  | @char c body hplain hbody ih =>
    have hlt : start < code.length := by
      have hlength := congrArg List.length hdrop
      simp only [List.length_drop, List.length_append, List.length_cons] at hlength
      omega
    have hafter : code.drop (start + 1) = body ++ rest :=
      drop_of_drop_eq_append [c] hdrop
    rw [← beginsDelimiter_append_iff c hbody.ne_nil rest, ← List.cons_append, ← hdrop,
      beginsDelimiter_drop_iff, not_or] at hplain
    rcases ih hafter with ⟨stop, hitems, hclose, hlength⟩
    refine ⟨stop, .char hlt hplain.1 hplain.2 hitems, hclose, ?_⟩
    rw [List.length_cons]
    omega

theorem isCommentAt_iff (code : List Char) (start stop : Nat)
    : IsCommentAt code start stop ↔
      ∃ comment rest, code.drop start = comment ++ rest ∧ IsComment comment ∧
        start + comment.length = stop := by
  constructor
  · intro h
    rcases h with ⟨inner, hopen, hitems, hclose, hstop⟩
    rcases hopen.exists_drop_eq with ⟨text, hdrop, hafter⟩
    rcases hitems.exists_body hclose with ⟨body, rest, hbodydrop, hbody, hlength⟩
    refine ⟨'/' :: '*' :: body, rest, ?_, ⟨body, rfl, hbody⟩, ?_⟩
    · rw [hdrop, ← hafter, hbodydrop]
      rfl
    · rw [List.length_cons, List.length_cons]
      omega
  · intro h
    rcases h with ⟨comment, rest, hdrop, ⟨body, hcomment, hbody⟩, hlength⟩
    rw [hcomment] at hdrop
    have hafter : code.drop (start + 2) = body ++ rest :=
      drop_of_drop_eq_append ['/', '*'] hdrop
    rcases hbody.exists_items hafter with ⟨inner, hitems, hclose, hinner⟩
    refine ⟨inner, ⟨body ++ rest, by rw [hdrop]; rfl⟩, hitems, hclose, ?_⟩
    rw [hcomment, List.length_cons, List.length_cons] at hlength
    omega

theorem Items.le {code : List Char} {start stop : Nat} (h : Items code start stop) : start ≤ stop := by
  induction h with
  | nil offset => exact Nat.le_refl _
  | comment => omega
  | char => omega

theorem IsCommentAt.bounds {code : List Char} {start stop : Nat} (h : IsCommentAt code start stop)
    : start + 4 ≤ stop ∧ stop ≤ code.length := by
  rcases h with ⟨inner, _, hitems, hclose, hstop⟩
  have hle := hitems.le
  have hroom := hclose.length_le
  simp only [List.length_cons, List.length_nil, List.length_drop] at hroom
  omega

/-!
The scan is a loop over the delimiters of a text. It counts the depth of nesting and ends when that is zero.
-/

structure Delimiter where
  offset : Nat
  opens : Bool

def Delimiter.change (delimiter : Delimiter) : Int :=
  if delimiter.opens then 1 else -1

/--
The delimiters of a text that begins at `offset`, read from left to right without overlap.
-/
def delimiters (offset : Nat) : List Char → List Delimiter
  | '/' :: '*' :: rest => { offset, opens := true } :: delimiters (offset + 2) rest
  | '*' :: '/' :: rest => { offset, opens := false } :: delimiters (offset + 2) rest
  | _ :: rest => delimiters (offset + 1) rest
  | [] => []

def firstZero? (depth : Int) : List Delimiter → Option Nat
  | [] => none
  | delimiter :: found =>
    if depth + delimiter.change = 0 then some (delimiter.offset + 2)
    else firstZero? (depth + delimiter.change) found

theorem closing?_eq_firstZero? (depth : Int) (text : List Char) (offset : Nat)
    : (closing? depth text).map (· + offset) = firstZero? depth (delimiters offset text) := by
  have hmap : ∀ (result : Option Nat) (offset size : Nat),
      (result.map (· + size)).map (· + offset) = result.map (· + (offset + size)) := by
    intro result offset size
    rw [Option.map_map]
    congr 1
    funext n
    simp only [Function.comp_apply]
    omega
  fun_induction closing? depth text generalizing offset with
  | case1 depth rest hzero => simp [delimiters, firstZero?, Delimiter.change, hzero, Nat.add_comm]
  | case2 depth rest hopened ih =>
    rw [hmap, ih]
    simp [delimiters, firstZero?, Delimiter.change, hopened]
  | case3 depth rest hzero =>
    rw [Int.sub_eq_add_neg] at hzero
    simp [delimiters, firstZero?, Delimiter.change, hzero, Nat.add_comm]
  | case4 depth rest hclosed ih =>
    rw [hmap, ih]
    rw [Int.sub_eq_add_neg] at hclosed ⊢
    simp only [delimiters, firstZero?, Delimiter.change, Bool.false_eq_true, if_false, hclosed]
  | case5 depth c rest hopening hclosing ih =>
    rw [hmap, ih, delimiters]
    · exact hopening
    · exact hclosing
  | case6 => rfl

theorem skip?_eq_firstZero? (code : List Char) (offset : Nat)
    : skip? code offset = firstZero? 0 (delimiters offset (code.drop offset)) := by
  exact closing?_eq_firstZero? 0 (code.drop offset) offset

def depthAfter : List Delimiter → Nat → Int
  | [], _ => 0
  | _ :: _, 0 => 0
  | delimiter :: found, count + 1 => delimiter.change + depthAfter found count

@[simp]
theorem depthAfter_zero (found : List Delimiter) : depthAfter found 0 = 0 := by
  cases found <;> rfl

@[simp]
theorem depthAfter_cons (delimiter : Delimiter) (found : List Delimiter) (count : Nat)
    : depthAfter (delimiter :: found) (count + 1) = delimiter.change + depthAfter found count := by
  rfl

def PositiveUpTo (depth : Int) (found : List Delimiter) (bound : Nat) : Prop :=
  ∀ count ≤ bound, 0 < depth + depthAfter found count

theorem positiveUpTo_zero_iff (depth : Int) (found : List Delimiter)
    : PositiveUpTo depth found 0 ↔ 0 < depth := by
  simp [PositiveUpTo]

theorem positiveUpTo_cons_iff (depth : Int) (delimiter : Delimiter) (found : List Delimiter)
    (bound : Nat)
    : PositiveUpTo depth (delimiter :: found) (bound + 1) ↔
      0 < depth ∧ PositiveUpTo (depth + delimiter.change) found bound := by
  constructor
  · intro h
    constructor
    · simpa using h 0 (Nat.zero_le _)
    · intro count hcount
      have := h (count + 1) (Nat.succ_le_succ hcount)
      rw [depthAfter_cons] at this
      omega
  · intro h count hcount
    cases count with
    | zero => simpa using h.1
    | succ count =>
      have := h.2 count (Nat.le_of_succ_le_succ hcount)
      rw [depthAfter_cons]
      omega

-- A delimiter changes the depth by one, so that from a positive depth it does not get below zero.
theorem firstZero?_cons_eq {depth : Int} (hdepth : 0 < depth) (delimiter : Delimiter)
    (found : List Delimiter)
    : (depth + delimiter.change = 0 ∧
        firstZero? depth (delimiter :: found) = some (delimiter.offset + 2)) ∨
      (0 < depth + delimiter.change ∧
        firstZero? depth (delimiter :: found) = firstZero? (depth + delimiter.change) found) := by
  have hchange : -1 ≤ delimiter.change := by
    unfold Delimiter.change
    split <;> omega
  rw [firstZero?]
  split
  · next hzero => exact Or.inl ⟨hzero, rfl⟩
  · next hne => exact Or.inr ⟨by omega, rfl⟩

theorem firstZero?_eq_some_iff {depth : Int} (hdepth : 0 < depth) (found : List Delimiter) (stop : Nat)
    : firstZero? depth found = some stop ↔
      ∃ last delimiter, found[last]? = some delimiter ∧ stop = delimiter.offset + 2 ∧
        depth + depthAfter found (last + 1) = 0 ∧ PositiveUpTo depth found last := by
  induction found generalizing depth with
  | nil => simp [firstZero?]
  | cons delimiter found ih =>
    rcases firstZero?_cons_eq hdepth delimiter found with ⟨hzero, heq⟩ | ⟨hafter, heq⟩
    · rw [heq, Option.some.injEq]
      constructor
      · intro hstop
        refine ⟨0, delimiter, rfl, hstop.symm, by simpa using hzero, ?_⟩
        rw [positiveUpTo_zero_iff]
        exact hdepth
      · intro h
        rcases h with ⟨last, final, hfinal, hstop, _, hpositive⟩
        cases last with
        | zero =>
          rw [List.getElem?_cons_zero, Option.some.injEq] at hfinal
          rw [hstop, hfinal]
        | succ last =>
          rw [positiveUpTo_cons_iff, hzero] at hpositive
          simpa using hpositive.2 0 (Nat.zero_le _)
    · rw [heq, ih hafter]
      constructor
      · intro h
        rcases h with ⟨last, final, hfinal, hstop, hzero, hpositive⟩
        refine ⟨last + 1, final, hfinal, hstop, ?_, ?_⟩
        · rw [depthAfter_cons, ← Int.add_assoc]
          exact hzero
        · rw [positiveUpTo_cons_iff]
          exact ⟨hdepth, hpositive⟩
      · intro h
        rcases h with ⟨last, final, hfinal, hstop, hzero, hpositive⟩
        rw [depthAfter_cons, ← Int.add_assoc] at hzero
        cases last with
        | zero =>
          rw [depthAfter_zero] at hzero
          omega
        | succ last =>
          rw [positiveUpTo_cons_iff] at hpositive
          exact ⟨last, final, hfinal, hstop, hzero, hpositive.2⟩

theorem firstZero?_eq_none_iff {depth : Int} (hdepth : 0 < depth) (found : List Delimiter)
    : firstZero? depth found = none ↔ PositiveUpTo depth found found.length := by
  induction found generalizing depth with
  | nil =>
    rw [List.length_nil, positiveUpTo_zero_iff]
    simpa [firstZero?] using hdepth
  | cons delimiter found ih =>
    rw [List.length_cons, positiveUpTo_cons_iff]
    rcases firstZero?_cons_eq hdepth delimiter found with ⟨hzero, heq⟩ | ⟨hafter, heq⟩
    · rw [heq, hzero]
      simp only [reduceCtorEq, false_iff, not_and]
      intro _ hpositive
      simpa using hpositive 0 (Nat.zero_le _)
    · rw [heq, ih hafter]
      exact (and_iff_right hdepth).symm

section

variable {code : List Char} {offset : Nat} (h : OpensAt code offset)
include h

theorem OpensAt.delimiters_eq
    : delimiters offset (code.drop offset) =
      { offset, opens := true } :: delimiters (offset + 2) (code.drop (offset + 2)) := by
  rcases h.exists_drop_eq with ⟨rest, hdrop, hafter⟩
  rw [hdrop, hafter]
  rfl

theorem OpensAt.skip?_eq
    : skip? code offset = firstZero? 1 (delimiters (offset + 2) (code.drop (offset + 2))) := by
  rw [skip?_eq_firstZero?, h.delimiters_eq]
  rfl

theorem OpensAt.positive_iff (bound : Nat)
    : (∀ count, 0 < count → count ≤ bound + 1 →
        0 < depthAfter (delimiters offset (code.drop offset)) count) ↔
      PositiveUpTo 1 (delimiters (offset + 2) (code.drop (offset + 2))) bound := by
  rw [h.delimiters_eq]
  constructor
  · intro hpositive count hcount
    have := hpositive (count + 1) (Nat.succ_pos count) (Nat.succ_le_succ hcount)
    rw [depthAfter_cons] at this
    exact this
  · intro hpositive count hpos hcount
    cases count with
    | zero => omega
    | succ count =>
      rw [depthAfter_cons]
      exact hpositive count (Nat.le_of_succ_le_succ hcount)

theorem skip?_eq_some_iff_depth (stop : Nat)
    : skip? code offset = some stop ↔
      ∃ last delimiter, (delimiters offset (code.drop offset))[last]? = some delimiter ∧
        stop = delimiter.offset + 2 ∧
        depthAfter (delimiters offset (code.drop offset)) (last + 1) = 0 ∧
        ∀ count, 0 < count → count ≤ last →
          0 < depthAfter (delimiters offset (code.drop offset)) count := by
  rw [h.skip?_eq, firstZero?_eq_some_iff (by decide)]
  constructor
  · intro hzero
    rcases hzero with ⟨last, delimiter, hlast, hstop, hzero, hpositive⟩
    rw [← h.positive_iff] at hpositive
    refine ⟨last + 1, delimiter, ?_, hstop, ?_, hpositive⟩
    · rw [h.delimiters_eq]
      exact hlast
    · rw [h.delimiters_eq, depthAfter_cons]
      exact hzero
  · intro hzero
    rcases hzero with ⟨last, delimiter, hlast, hstop, hzero, hpositive⟩
    cases last with
    | zero =>
      rw [h.delimiters_eq] at hzero
      simp [Delimiter.change] at hzero
    | succ last =>
      rw [h.positive_iff] at hpositive
      rw [h.delimiters_eq] at hlast hzero
      rw [depthAfter_cons] at hzero
      exact ⟨last, delimiter, hlast, hstop, hzero, hpositive⟩

theorem skip?_eq_none_iff_depth
    : skip? code offset = none ↔
      ∀ count, 0 < count → count ≤ (delimiters offset (code.drop offset)).length →
        0 < depthAfter (delimiters offset (code.drop offset)) count := by
  have hlength : (delimiters offset (code.drop offset)).length =
      (delimiters (offset + 2) (code.drop (offset + 2))).length + 1 := by
    rw [h.delimiters_eq, List.length_cons]
  rw [h.skip?_eq, firstZero?_eq_none_iff (by decide), hlength, h.positive_iff]

theorem skip?_eq_some_iff_isCommentAt (stop : Nat)
    : skip? code offset = some stop ↔ IsCommentAt code offset stop := by
  rcases h.exists_drop_eq with ⟨rest, hdrop, _⟩
  rw [isCommentAt_iff]
  simp only [skip?, Int.toNat_natCast, hdrop, Option.map_eq_some_iff, closing?_eq_some_iff]
  constructor
  · intro hskip
    rcases hskip with ⟨n, ⟨comment, more, htext, hcomment, hlength⟩, hstop⟩
    exact ⟨comment, more, htext, hcomment, by omega⟩
  · intro hcomment
    rcases hcomment with ⟨comment, more, htext, hcomment, hlength⟩
    exact ⟨comment.length, ⟨comment, more, htext, hcomment, rfl⟩, by omega⟩

end

/--
From an opening on, the scan ends with the comment that begins there, of which there is at most one. It has
no end exactly if no comment begins there. Up to the delimiter that ends the scan the depth of nesting is
positive after every delimiter, and if there is no such delimiter it is positive after all of them.
-/
theorem skip?_matches_nesting {code : List Char} {offset : Nat} (h : OpensAt code offset)
    : (∀ stop, skip? code offset = some stop ↔ IsCommentAt code offset stop) ∧
      (∀ stop other, IsCommentAt code offset stop → IsCommentAt code offset other → stop = other) ∧
      (∀ stop, IsCommentAt code offset stop → offset + 4 ≤ stop ∧ stop ≤ code.length) ∧
      (skip? code offset = none ↔ ∀ stop, ¬IsCommentAt code offset stop) ∧
      (∀ stop, skip? code offset = some stop ↔
        ∃ last delimiter, (delimiters offset (code.drop offset))[last]? = some delimiter ∧
          stop = delimiter.offset + 2 ∧
          depthAfter (delimiters offset (code.drop offset)) (last + 1) = 0 ∧
          ∀ count, 0 < count → count ≤ last →
            0 < depthAfter (delimiters offset (code.drop offset)) count) ∧
      (skip? code offset = none ↔
        ∀ count, 0 < count → count ≤ (delimiters offset (code.drop offset)).length →
          0 < depthAfter (delimiters offset (code.drop offset)) count) := by
  have hiff := skip?_eq_some_iff_isCommentAt h
  refine ⟨hiff, ?_, fun stop hcomment => hcomment.bounds, ?_, skip?_eq_some_iff_depth h,
    skip?_eq_none_iff_depth h⟩
  · intro stop other hstop hother
    rw [← hiff] at hstop hother
    rw [hstop, Option.some.injEq] at hother
    exact hother
  · simp only [Option.eq_none_iff_forall_ne_some, ne_eq, hiff]

theorem skip?_matches_nesting_overlapping
    : let code := "x/*/**/*/*/".toList
      OpensAt code 1 ∧ skip? code 1 = some 9 ∧ IsCommentAt code 1 9 := by
  intro code
  have h : OpensAt code 1 := by decide
  have hskip : skip? code 1 = some 9 := by decide
  exact ⟨h, hskip, ((skip?_matches_nesting h).1 9).1 hskip⟩

end NamedLambda.Source.Comment
