import NamedLambda.Source.Comment

/-!
This module contains the grammar of block comments, which is recursive: a comment is opened, goes on with
comments and characters, and is closed. The scan that only counts delimiters stops exactly at the end of
such a comment.
-/

namespace NamedLambda.Source.Comment

def BeginsDelimiter (text : List Char) : Prop :=
  ['/', '*'] <+: text ∨ ['*', '/'] <+: text

/--
What follows the opening of a comment, up to and with its closing: comments, and characters at which no
delimiter begins.
-/
inductive Body : List Char → Prop where
  | close : Body ['*', '/']
  | nested {body rest : List Char} (hbody : Body body) (hrest : Body rest)
    : Body ('/' :: '*' :: (body ++ rest))
  | char {c : Char} {rest : List Char} (h : ¬BeginsDelimiter (c :: rest)) (hrest : Body rest)
    : Body (c :: rest)

def IsComment (text : List Char) : Prop :=
  ∃ body, text = '/' :: '*' :: body ∧ Body body

theorem Body.ne_nil {body : List Char} (h : Body body) : body ≠ [] := by
  cases h with
  | close => simp
  | nested => simp
  | char => simp

-- A delimiter has two characters, so that one more after the first decides.
theorem beginsDelimiter_append_iff (c : Char) {rest : List Char} (h : rest ≠ []) (more : List Char)
    : BeginsDelimiter (c :: (rest ++ more)) ↔ BeginsDelimiter (c :: rest) := by
  rcases List.exists_cons_of_ne_nil h with ⟨d, others, heq⟩
  subst heq
  simp [BeginsDelimiter, List.cons_prefix_cons]

theorem not_beginsDelimiter {c : Char} {rest : List Char}
    (hopening : ∀ more, c = '/' → rest = '*' :: more → False)
    (hclosing : ∀ more, c = '*' → rest = '/' :: more → False) : ¬BeginsDelimiter (c :: rest) := by
  intro h
  cases h with
  | inl hprefix =>
    rcases hprefix with ⟨more, heq⟩
    simp only [List.cons_append, List.nil_append, List.cons.injEq] at heq
    exact hopening more heq.1.symm heq.2.symm
  | inr hprefix =>
    rcases hprefix with ⟨more, heq⟩
    simp only [List.cons_append, List.nil_append, List.cons.injEq] at heq
    exact hclosing more heq.1.symm heq.2.symm

theorem closing?_cons {c : Char} {rest : List Char} (h : ¬BeginsDelimiter (c :: rest)) (depth : Int)
    : closing? depth (c :: rest) = (closing? depth rest).map (· + 1) := by
  rw [closing?]
  · intro more hc hrest
    apply h
    left
    simp [hc, hrest]
  · intro more hc hrest
    apply h
    right
    simp [hc, hrest]

/-!
The scan after `depth` openings ends with the body that closes the first of them. So it passes over one
body and goes on with a depth that is less by one.
-/

theorem closing?_body {body : List Char} (h : Body body) {depth : Int} (hdepth : 0 < depth)
    (more : List Char)
    : closing? depth (body ++ more) =
      if depth - 1 = 0 then some body.length
      else (closing? (depth - 1) more).map (· + body.length) := by
  induction h generalizing depth more with
  | close => rfl
  | @nested body rest hbody hrest ihbody ihrest =>
    have hopened : depth + 1 ≠ 0 := by omega
    have hdeeper : depth + 1 - 1 ≠ 0 := by omega
    have hlength : body.length + rest.length + 2 = ('/' :: '*' :: (body ++ rest)).length := by
      simp
    simp only [List.cons_append, List.append_assoc, closing?, if_neg hopened]
    rw [ihbody (by omega), if_neg hdeeper, Int.add_sub_cancel, ihrest hdepth]
    split
    · simp only [Option.map_some, Option.some.injEq]
      omega
    · simp only [Option.map_map]
      congr 1
      funext n
      simp only [Function.comp_apply]
      omega
  | @char c rest hplain hrest ih =>
    have hplain' : ¬BeginsDelimiter (c :: (rest ++ more)) := by
      rw [beginsDelimiter_append_iff c hrest.ne_nil]
      exact hplain
    rw [List.cons_append, closing?_cons hplain', ih hdepth]
    split
    · rfl
    · simp only [Option.map_map]
      congr 1

theorem exists_bodies {depth : Int} {text : List Char} {n : Nat} (hdepth : 0 < depth)
    (h : closing? depth text = some n)
    : ∃ (bodies : List (List Char)) (rest : List Char), text = bodies.flatten ++ rest ∧
        bodies.flatten.length = n ∧ (bodies.length : Int) = depth ∧
        ∀ body ∈ bodies, Body body := by
  fun_induction closing? depth text generalizing n with
  | case1 depth rest hzero => omega
  | case2 depth rest hopened ih =>
    rcases Option.map_eq_some_iff.1 h with ⟨m, hm, heq⟩
    rcases ih (by omega) hm with ⟨bodies, more, hrest, hlength, hcount, hbodies⟩
    -- Two bodies at least follow: that of the comment which is opened here, and one around it.
    cases bodies with
    | nil =>
      rw [List.length_nil] at hcount
      omega
    | cons body others =>
      cases others with
      | nil =>
        rw [List.length_singleton] at hcount
        omega
      | cons outer bodies =>
        simp only [List.forall_mem_cons] at hbodies
        refine ⟨('/' :: '*' :: (body ++ outer)) :: bodies, more, ?_, ?_, ?_, ?_⟩
        · simp [hrest]
        · simp only [List.flatten_cons, List.length_append, List.length_cons] at hlength ⊢
          omega
        · simp only [List.length_cons] at hcount ⊢
          omega
        · rw [List.forall_mem_cons]
          exact ⟨.nested hbodies.1 hbodies.2.1, hbodies.2.2⟩
  | case3 depth rest hzero =>
    rw [Option.some.injEq] at h
    refine ⟨[['*', '/']], rest, by simp, by simp [h], ?_, by simp [Body.close]⟩
    rw [List.length_singleton]
    omega
  | case4 depth rest hclosed ih =>
    rcases Option.map_eq_some_iff.1 h with ⟨m, hm, heq⟩
    rcases ih (by omega) hm with ⟨bodies, more, hrest, hlength, hcount, hbodies⟩
    refine ⟨['*', '/'] :: bodies, more, by simp [hrest], ?_, ?_, ?_⟩
    · simp only [List.flatten_cons, List.length_append, List.length_cons, List.length_nil]
      omega
    · rw [List.length_cons]
      omega
    · rw [List.forall_mem_cons]
      exact ⟨.close, hbodies⟩
  | case5 depth c rest hopening hclosing ih =>
    rcases Option.map_eq_some_iff.1 h with ⟨m, hm, heq⟩
    rcases ih hdepth hm with ⟨bodies, more, hrest, hlength, hcount, hbodies⟩
    cases bodies with
    | nil =>
      rw [List.length_nil] at hcount
      omega
    | cons body bodies =>
      rw [List.forall_mem_cons] at hbodies
      have hplain : ¬BeginsDelimiter (c :: body) := by
        rw [← beginsDelimiter_append_iff c hbodies.1.ne_nil (bodies.flatten ++ more),
          ← List.append_assoc, ← List.flatten_cons, ← hrest]
        exact not_beginsDelimiter hopening hclosing
      refine ⟨(c :: body) :: bodies, more, by simp [hrest], ?_, by simpa using hcount, ?_⟩
      · simp only [List.flatten_cons, List.length_append, List.length_cons] at hlength ⊢
        omega
      · rw [List.forall_mem_cons]
        exact ⟨.char hplain hbodies.1, hbodies.2⟩
  | case6 => simp at h

theorem closing?_eq_some_iff (text : List Char) (n : Nat)
    : closing? 0 ('/' :: '*' :: text) = some n ↔
      ∃ comment rest, '/' :: '*' :: text = comment ++ rest ∧ IsComment comment ∧
        comment.length = n := by
  have hopen : closing? 0 ('/' :: '*' :: text) = (closing? 1 text).map (· + 2) := rfl
  rw [hopen, Option.map_eq_some_iff]
  constructor
  · intro h
    rcases h with ⟨m, hm, heq⟩
    rcases exists_bodies (by omega) hm with ⟨bodies, rest, htext, hlength, hcount, hbodies⟩
    have hsingle : bodies.length = 1 := by omega
    rcases List.length_eq_one_iff.1 hsingle with ⟨body, hbody⟩
    subst hbody
    refine ⟨'/' :: '*' :: body, rest, by simp [htext], ⟨body, rfl, hbodies body (by simp)⟩, ?_⟩
    rw [List.flatten_singleton] at hlength
    rw [List.length_cons, List.length_cons, hlength]
    exact heq
  · intro h
    rcases h with ⟨comment, rest, htext, ⟨body, hcomment, hbody⟩, hlength⟩
    subst hcomment
    simp only [List.cons_append, List.cons.injEq, true_and] at htext
    refine ⟨body.length, ?_, by simpa using hlength⟩
    rw [htext, closing?_body hbody (by omega)]
    rfl

theorem closing?_eq_none_iff (text : List Char)
    : closing? 0 ('/' :: '*' :: text) = none ↔
      ∀ comment rest, '/' :: '*' :: text = comment ++ rest → ¬IsComment comment := by
  rw [Option.eq_none_iff_forall_ne_some]
  constructor
  · intro h comment rest htext hcomment
    exact h comment.length ((closing?_eq_some_iff text _).2 ⟨comment, rest, htext, hcomment, rfl⟩)
  · intro h n hn
    rcases (closing?_eq_some_iff text n).1 hn with ⟨comment, rest, htext, hcomment, _⟩
    exact h comment rest htext hcomment

end NamedLambda.Source.Comment
