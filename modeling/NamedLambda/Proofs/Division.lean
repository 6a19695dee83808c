import NamedLambda.Proofs.NestedComments
import NamedLambda.Source.Piece

/-!
This module contains the division of a text into pieces as a relation: a piece has the form of its kind,
and what follows cannot belong to it. A text has exactly one division, which is the one that is computed.
-/

namespace NamedLambda.Source

namespace Piece

theorem takeWhile_append_rest {p : Char → Bool} {text rest : List Char} (h : ∀ d ∈ text, p d = true)
    (hrest : ∀ d ∈ rest.head?, p d = false) : (text ++ rest).takeWhile p = text := by
  rw [List.takeWhile_append_of_pos h]
  cases rest with
  | nil => simp
  | cons d rest => simp [hrest d rfl]

theorem dropWhile_append_rest {p : Char → Bool} {text rest : List Char} (h : ∀ d ∈ text, p d = true)
    (hrest : ∀ d ∈ rest.head?, p d = false) : (text ++ rest).dropWhile p = rest := by
  rw [List.dropWhile_append_of_pos h]
  cases rest with
  | nil => rfl
  | cons d rest => simp [hrest d rfl]

theorem isNameStart_of_isBlank {c : Char} (h : isBlank c = true) : isNameStart c = false := by
  simp only [isBlank, Bool.or_eq_true, beq_iff_eq] at h
  rcases h with (((h | h) | h) | h) | h
  all_goals
    subst h
    decide

theorem not_name_not_blank_of_symbol? {c : Char} {kind : Kind} (h : symbol? c = some kind)
    : isNameStart c = false ∧ isBlank c = false := by
  unfold symbol? at h
  split at h
  · decide
  · decide
  · decide
  · decide
  · decide
  · decide
  · simp at h

theorem next_name {c : Char} (h : isNameStart c = true) (rest : List Char)
    : next c rest = (token .name (c :: rest.takeWhile isNameChar), rest.dropWhile isNameChar) := by
  unfold next
  rw [if_pos h]

theorem next_blank {c : Char} (h : isBlank c = true) (rest : List Char)
    : next c rest = (blank (c :: rest.takeWhile isBlank), rest.dropWhile isBlank) := by
  unfold next
  rw [if_neg (by simp [isNameStart_of_isBlank h]), if_pos h]

theorem next_symbol {c : Char} {kind : Kind} (h : symbol? c = some kind) (rest : List Char)
    : next c rest = (token kind [c], rest) := by
  unfold next
  rcases not_name_not_blank_of_symbol? h with ⟨hname, hblank⟩
  rw [if_neg (by simp [hname]), if_neg (by simp [hblank]), h]

theorem next_lineComment (rest : List Char)
    : next '/' ('/' :: rest) =
      (lineComment ('/' :: ('/' :: rest).takeWhile (· != '\n')),
        ('/' :: rest).dropWhile (· != '\n')) := by
  rfl

theorem next_block (rest : List Char)
    : next '/' ('*' :: rest) =
      match Comment.closing? 0 ('/' :: '*' :: rest) with
      | some n => (blockComment (('/' :: '*' :: rest).take n), ('/' :: '*' :: rest).drop n)
      | none => (unclosed ('/' :: '*' :: rest), []) := by
  rfl

theorem next_invalid {c : Char} {rest : List Char} (hname : isNameStart c = false)
    (hblank : isBlank c = false) (hsymbol : symbol? c = none)
    (hcomment : c = '/' → ∀ tail, rest ≠ '/' :: tail ∧ rest ≠ '*' :: tail)
    : next c rest = (invalid c, rest) := by
  unfold next
  simp only [hname, hblank, hsymbol, Bool.false_eq_true, if_false]
  split
  · next tail => exact absurd rfl (hcomment rfl tail).1
  · next tail => exact absurd rfl (hcomment rfl tail).2
  · rfl

end Piece

def IsName (name : String) : Prop :=
  ∃ c others, name.toList = c :: others ∧ Piece.isNameStart c = true ∧
    ∀ d ∈ others, Piece.isNameChar d = true

def Kind.Matches : Kind → List Char → Prop
  | .name, text => IsName (String.ofList text)
  | .lambda, text => text = ['@'] ∨ text = ['λ']
  | .erased, text => text = ['*']
  | .equals, text => text = ['=']
  | .leftParen, text => text = ['(']
  | .rightParen, text => text = [')']

namespace Piece

/--
A piece that `rest` follows. A name, a run of blanks and a line comment go as far as they can, and an
unclosed comment goes to the end of the text.
-/
inductive Fits : Piece → List Char → Prop where
  | token {kind : Kind} {text rest : List Char} (hmatches : kind.Matches text)
      (hend : kind = .name → ∀ d ∈ rest.head?, isNameChar d = false)
    : Fits (.token kind text) rest
  | blank {text rest : List Char} (hne : text ≠ []) (hblank : ∀ c ∈ text, isBlank c = true)
      (hend : ∀ d ∈ rest.head?, isBlank d = false)
    : Fits (.blank text) rest
  | lineComment {text rest : List Char} (hline : '\n' ∉ text) (hend : ∀ d ∈ rest.head?, d = '\n')
    : Fits (.lineComment ('/' :: '/' :: text)) rest
  | blockComment {text rest : List Char} (h : Comment.IsComment text)
    : Fits (.blockComment text) rest
  | invalid {c : Char} {rest : List Char} (hkind : ∀ kind : Kind, ¬kind.Matches [c])
      (hblank : isBlank c = false) (hcomment : c = '/' → ∀ d ∈ rest.head?, d ≠ '/' ∧ d ≠ '*')
    : Fits (.invalid c) rest
  | unclosed {text : List Char}
      (h : ∀ comment more, '/' :: '*' :: text = comment ++ more → ¬Comment.IsComment comment)
    : Fits (.unclosed ('/' :: '*' :: text)) []

end Piece

theorem isName_ofList_iff (text : List Char)
    : IsName (String.ofList text) ↔
      ∃ c others, text = c :: others ∧ Piece.isNameStart c = true ∧
        ∀ d ∈ others, Piece.isNameChar d = true := by
  simp only [IsName, String.toList_ofList]

theorem symbol?_eq_some_iff (c : Char) (kind : Kind)
    : Piece.symbol? c = some kind ↔ kind ≠ .name ∧ kind.Matches [c] := by
  unfold Piece.symbol?
  split
  all_goals cases kind <;> simp_all [Kind.Matches]

theorem Kind.Matches.exists_singleton {kind : Kind} {text : List Char} (h : kind.Matches text)
    (hkind : kind ≠ .name) : ∃ c, text = [c] := by
  cases kind with
  | name => exact absurd rfl hkind
  | lambda =>
    cases h with
    | inl heq => exact ⟨_, heq⟩
    | inr heq => exact ⟨_, heq⟩
  | erased => exact ⟨_, h⟩
  | equals => exact ⟨_, h⟩
  | leftParen => exact ⟨_, h⟩
  | rightParen => exact ⟨_, h⟩

theorem Kind.Matches.ne_nil {kind : Kind} {text : List Char} (h : kind.Matches text) : text ≠ [] := by
  by_cases hkind : kind = .name
  · subst hkind
    rcases (isName_ofList_iff text).1 h with ⟨c, others, heq, _⟩
    simp [heq]
  · rcases h.exists_singleton hkind with ⟨c, heq⟩
    simp [heq]

theorem Kind.Matches.newline_not_mem {kind : Kind} {text : List Char} (h : kind.Matches text)
    : '\n' ∉ text := by
  by_cases hkind : kind = .name
  · subst hkind
    rcases (isName_ofList_iff text).1 h with ⟨c, others, heq, hstart, hothers⟩
    rw [heq, List.mem_cons, not_or]
    constructor
    · intro hc
      rw [← hc] at hstart
      exact absurd hstart (by decide)
    · intro hmem
      exact absurd (hothers _ hmem) (by decide)
  · rcases h.exists_singleton hkind with ⟨c, heq⟩
    subst heq
    rw [List.mem_singleton]
    intro hc
    subst hc
    exact absurd ((symbol?_eq_some_iff '\n' kind).2 ⟨hkind, h⟩) (by simp [Piece.symbol?])

namespace Piece

theorem isNameStart_of_matches {c : Char} {others : List Char}
    (h : Kind.name.Matches (c :: others)) : isNameStart c = true := by
  rcases (isName_ofList_iff _).1 h with ⟨d, more, heq, hstart, _⟩
  rw [List.cons.injEq] at heq
  rw [heq.1]
  exact hstart

theorem kind_eq_of_matches {kind other : Kind} {text : List Char} (h : kind.Matches text)
    (h' : other.Matches text) : kind = other := by
  have hsymbol : ∀ {kind other : Kind}, kind ≠ .name → kind.Matches text → other.Matches text →
      kind = other := by
    intro kind other hkind h h'
    rcases h.exists_singleton hkind with ⟨c, htext⟩
    subst htext
    have hc := (symbol?_eq_some_iff c kind).2 ⟨hkind, h⟩
    have hother : other ≠ .name := by
      intro heq
      subst heq
      have := (not_name_not_blank_of_symbol? hc).1
      simp [isNameStart_of_matches h'] at this
    have hc' := (symbol?_eq_some_iff c other).2 ⟨hother, h'⟩
    rw [hc, Option.some.injEq] at hc'
    exact hc'
  by_cases hkind : kind = .name
  · by_cases hother : other = .name
    · rw [hkind, hother]
    · exact (hsymbol hother h' h).symm
  · exact hsymbol hkind h h'

theorem Fits.text_ne_nil {piece : Piece} {rest : List Char} (h : piece.Fits rest)
    : piece.text ≠ [] := by
  cases h with
  | token hmatches => exact hmatches.ne_nil
  | blank hne => exact hne
  | lineComment => simp [text]
  | blockComment h =>
    rcases h with ⟨body, heq, _⟩
    simp [text, heq]
  | invalid => simp [text]
  | unclosed => simp [text]

theorem head?_dropWhile (p : Char → Bool) (text : List Char)
    : ∀ d ∈ (text.dropWhile p).head?, p d = false := by
  intro d hd
  have hstop := List.head?_dropWhile_not p text
  rw [Option.mem_def] at hd
  rw [hd] at hstop
  exact hstop

theorem newline_not_mem_takeWhile (text : List Char) : '\n' ∉ text.takeWhile (· != '\n') := by
  intro hmem
  simpa using List.all_eq_true.1 List.all_takeWhile _ hmem

theorem fits_invalid {c : Char} {rest : List Char} (hname : isNameStart c = false)
    (hblank : isBlank c = false) (hsymbol : symbol? c = none)
    (hcomment : c = '/' → ∀ tail, rest ≠ '/' :: tail ∧ rest ≠ '*' :: tail)
    : (invalid c).Fits rest := by
  apply Fits.invalid
  · intro kind hmatches
    by_cases hkind : kind = .name
    · subst hkind
      simp [isNameStart_of_matches hmatches] at hname
    · rw [(symbol?_eq_some_iff c kind).2 ⟨hkind, hmatches⟩] at hsymbol
      simp at hsymbol
  · exact hblank
  · intro hslash d hd
    rw [Option.mem_def, List.head?_eq_some_iff] at hd
    rcases hd with ⟨tail, hrest⟩
    constructor
    · intro heq
      exact (hcomment hslash tail).1 (heq ▸ hrest)
    · intro heq
      exact (hcomment hslash tail).2 (heq ▸ hrest)

theorem next_block_fits (tail : List Char)
    : (next '/' ('*' :: tail)).1.Fits (next '/' ('*' :: tail)).2 := by
  rw [next_block]
  cases hclosing : Comment.closing? 0 ('/' :: '*' :: tail) with
  | none => exact .unclosed ((Comment.closing?_eq_none_iff tail).1 hclosing)
  | some n =>
    rcases (Comment.closing?_eq_some_iff tail n).1 hclosing with
      ⟨comment, more, heq, hcomment, hlength⟩
    simp only [heq, ← hlength, List.take_left, List.drop_left]
    exact .blockComment hcomment

theorem next_fits (c : Char) (rest : List Char) : (next c rest).1.Fits (next c rest).2 := by
  cases hname : isNameStart c with
  | true =>
    rw [next_name hname]
    apply Fits.token
    · rw [Kind.Matches, isName_ofList_iff]
      exact ⟨c, _, rfl, hname, List.all_eq_true.1 List.all_takeWhile⟩
    · intro _
      exact head?_dropWhile isNameChar rest
  | false =>
    cases hblank : isBlank c with
    | true =>
      rw [next_blank hblank]
      apply Fits.blank
      · simp
      · rw [List.forall_mem_cons]
        exact ⟨hblank, List.all_eq_true.1 List.all_takeWhile⟩
      · exact head?_dropWhile isBlank rest
    | false =>
      cases hsymbol : symbol? c with
      | some kind =>
        rw [next_symbol hsymbol]
        rcases (symbol?_eq_some_iff c kind).1 hsymbol with ⟨hkind, hmatches⟩
        exact .token hmatches (fun heq => absurd heq hkind)
      | none =>
        by_cases hline : c = '/' ∧ ∃ tail, rest = '/' :: tail
        · rcases hline with ⟨hslash, tail, hrest⟩
          subst hslash hrest
          rw [next_lineComment, List.takeWhile_cons_of_pos (by decide)]
          apply Fits.lineComment
          · exact newline_not_mem_takeWhile tail
          · intro d hd
            simpa using head?_dropWhile (· != '\n') ('/' :: tail) d hd
        · by_cases hblock : c = '/' ∧ ∃ tail, rest = '*' :: tail
          · rcases hblock with ⟨hslash, tail, hrest⟩
            subst hslash hrest
            exact next_block_fits tail
          · have hcomment : c = '/' → ∀ tail, rest ≠ '/' :: tail ∧ rest ≠ '*' :: tail := by
              intro hslash tail
              exact ⟨fun heq => hline ⟨hslash, tail, heq⟩, fun heq => hblock ⟨hslash, tail, heq⟩⟩
            rw [next_invalid hname hblank hsymbol hcomment]
            exact fits_invalid hname hblank hsymbol hcomment

-- Of what follows a piece, only the first character matters, but for an unclosed comment.
theorem Fits.of_head? {piece : Piece} {rest other : List Char} (h : piece.Fits rest)
    (hclosed : ∀ text, piece ≠ Piece.unclosed text) (hhead : ∀ d ∈ other.head?, d ∈ rest.head?)
    : piece.Fits other := by
  cases h with
  | token hmatches hend => exact .token hmatches (fun hkind d hd => hend hkind d (hhead d hd))
  | blank hne hblank hend => exact .blank hne hblank (fun d hd => hend d (hhead d hd))
  | lineComment hline hend => exact .lineComment hline (fun d hd => hend d (hhead d hd))
  | blockComment h => exact .blockComment h
  | invalid hkind hblank hcomment =>
    exact .invalid hkind hblank (fun hslash d hd => hcomment hslash d (hhead d hd))
  | unclosed => exact absurd rfl (hclosed _)

theorem next_comment {body : List Char} (h : Comment.Body body) (rest : List Char)
    : next '/' ('*' :: (body ++ rest)) = (blockComment ('/' :: '*' :: body), rest) := by
  have hclosing : Comment.closing? 0 ('/' :: '*' :: (body ++ rest)) =
      some ('/' :: '*' :: body).length := by
    rw [Comment.closing?_eq_some_iff]
    exact ⟨'/' :: '*' :: body, rest, rfl, ⟨body, rfl, h⟩, rfl⟩
  rw [next_block, hclosing]
  simp only [← List.cons_append, List.take_left, List.drop_left]

theorem Fits.next_invalid {c : Char} {rest : List Char} (h : (Piece.invalid c).Fits rest)
    : next c rest = (Piece.invalid c, rest) := by
  cases h with
  | invalid hkind hblank hcomment =>
    have hname : isNameStart c = false := by
      rw [Bool.eq_false_iff]
      intro hstart
      apply hkind .name
      rw [Kind.Matches, isName_ofList_iff]
      exact ⟨c, [], rfl, hstart, by simp⟩
    have hsymbol : symbol? c = none := by
      rw [Option.eq_none_iff_forall_ne_some]
      intro kind h
      exact hkind kind ((symbol?_eq_some_iff c kind).1 h).2
    rw [Piece.next_invalid hname hblank hsymbol]
    intro hslash more
    constructor
    · intro hrest
      exact (hcomment hslash '/' (by simp [hrest])).1 rfl
    · intro hrest
      exact (hcomment hslash '*' (by simp [hrest])).2 rfl

theorem Fits.next_eq {piece : Piece} {rest tail : List Char} {c : Char} (h : piece.Fits rest)
    (heq : piece.text ++ rest = c :: tail) : next c tail = (piece, rest) := by
  cases h with
  | @token kind text _ hmatches hend =>
    by_cases hkind : kind = .name
    · subst hkind
      rcases (isName_ofList_iff text).1 hmatches with ⟨d, others, htext, hstart, hothers⟩
      subst htext
      simp only [Piece.text, List.cons_append, List.cons.injEq] at heq
      rw [← heq.1, ← heq.2, next_name hstart, takeWhile_append_rest hothers (hend rfl),
        dropWhile_append_rest hothers (hend rfl)]
    · rcases hmatches.exists_singleton hkind with ⟨d, htext⟩
      subst htext
      simp only [Piece.text, List.cons_append, List.nil_append, List.cons.injEq] at heq
      rw [← heq.1, ← heq.2, next_symbol ((symbol?_eq_some_iff d kind).2 ⟨hkind, hmatches⟩)]
  | @blank text _ hne hblank hend =>
    rcases List.exists_cons_of_ne_nil hne with ⟨d, others, htext⟩
    subst htext
    rw [List.forall_mem_cons] at hblank
    simp only [Piece.text, List.cons_append, List.cons.injEq] at heq
    rw [← heq.1, ← heq.2, next_blank hblank.1, takeWhile_append_rest hblank.2 hend,
      dropWhile_append_rest hblank.2 hend]
  | @lineComment text _ hline hend =>
    simp only [Piece.text, List.cons_append, List.cons.injEq] at heq
    have hall : ∀ d ∈ '/' :: text, (d != '\n') = true := by
      rw [List.forall_mem_cons]
      refine ⟨by decide, ?_⟩
      intro d hd
      rw [bne_iff_ne]
      exact fun hnewline => hline (hnewline ▸ hd)
    have hrest : ∀ d ∈ rest.head?, (d != '\n') = false := by
      intro d hd
      simp [hend d hd]
    rw [← heq.1, ← heq.2, next_lineComment, ← List.cons_append, takeWhile_append_rest hall hrest,
      dropWhile_append_rest hall hrest]
  | blockComment h =>
    rcases h with ⟨body, htext, hbody⟩
    subst htext
    simp only [Piece.text, List.cons_append, List.cons.injEq] at heq
    rw [← heq.1, ← heq.2, next_comment hbody]
  | invalid hkind hblank hcomment =>
    simp only [Piece.text, List.cons_append, List.nil_append, List.cons.injEq] at heq
    rw [← heq.1, ← heq.2]
    exact Fits.next_invalid (.invalid hkind hblank hcomment)
  | @unclosed text h =>
    simp only [Piece.text, List.append_nil, List.cons.injEq] at heq
    rw [← heq.1, ← heq.2, next_block, (Comment.closing?_eq_none_iff text).2 h]

theorem Fits.pieces_eq {piece : Piece} {rest : List Char} (h : piece.Fits rest)
    : pieces (piece.text ++ rest) = piece :: pieces rest := by
  have hne : piece.text ++ rest ≠ [] := by simp [h.text_ne_nil]
  rcases List.exists_cons_of_ne_nil hne with ⟨c, tail, heq⟩
  rw [heq, pieces_cons, h.next_eq heq]

end Piece

/--
The pieces, put together, are the text, and each one fits before what is left of it.
-/
inductive Divides : List Char → List Piece → Prop where
  | nil : Divides [] []
  | cons {piece : Piece} {rest : List Char} {more : List Piece} (hfits : piece.Fits rest)
      (h : Divides rest more)
    : Divides (piece.text ++ rest) (piece :: more)

theorem divides_pieces (text : List Char) : Divides text (pieces text) := by
  fun_induction pieces text with
  | case1 => exact .nil
  | case2 c rest ih =>
    rw [← Piece.next_append c rest]
    exact .cons (Piece.next_fits c rest) ih

namespace Divides

variable {text : List Char} {division left right : List Piece} {piece : Piece}

theorem eq_pieces (h : Divides text division) : division = pieces text := by
  induction h with
  | nil => rw [pieces_nil]
  | @cons piece rest more hfits _ ih => rw [hfits.pieces_eq, ih]

theorem flatMap_text_eq (h : Divides text division) : division.flatMap Piece.text = text := by
  rw [h.eq_pieces, flatMap_text_pieces]

theorem exists_rest (h : Divides text (piece :: right))
    : ∃ rest, text = piece.text ++ rest ∧ piece.Fits rest ∧ Divides rest right := by
  cases h with
  | cons hfits h => exact ⟨_, rfl, hfits, h⟩

theorem suffix (h : Divides text (left ++ right)) : Divides (right.flatMap Piece.text) right := by
  induction left generalizing text with
  | nil =>
    rw [List.nil_append] at h
    rw [h.flatMap_text_eq]
    exact h
  | cons first left ih =>
    cases h with
    | cons _ h => exact ih h

theorem fits (h : Divides text (left ++ piece :: right)) : piece.Fits (right.flatMap Piece.text) := by
  rcases h.suffix.exists_rest with ⟨rest, _, hfits, hrest⟩
  rw [hrest.flatMap_text_eq]
  exact hfits

-- What stands before a piece is divided in the same way without the rest of the text.
theorem before (h : Divides text (left ++ right)) (hclosed : ∀ rest, .unclosed rest ∉ left)
    : Divides (left.flatMap Piece.text) left := by
  induction left generalizing text with
  | nil => exact .nil
  | cons piece left ih =>
    rw [List.cons_append] at h
    rcases h.exists_rest with ⟨rest, _, hfits, hrest⟩
    have hleft := ih hrest (fun more hmem => hclosed more (List.mem_cons_of_mem _ hmem))
    rw [List.flatMap_cons]
    refine .cons (hfits.of_head? ?_ ?_) hleft
    · intro more heq
      rw [heq] at hclosed
      exact hclosed more List.mem_cons_self
    · intro d hd
      rw [← hrest.flatMap_text_eq, List.flatMap_append, List.head?_append, hd]
      rfl

end Divides

theorem fits_of_mem_pieces {text : List Char} {piece : Piece} (h : piece ∈ pieces text)
    : ∃ rest, piece.Fits rest := by
  rcases List.append_of_mem h with ⟨left, right, heq⟩
  have hdivides := divides_pieces text
  rw [heq] at hdivides
  exact ⟨_, hdivides.fits⟩

theorem divides_iff (text : List Char) (division : List Piece)
    : Divides text division ↔ division = pieces text := by
  constructor
  · exact Divides.eq_pieces
  · intro h
    rw [h]
    exact divides_pieces text

end NamedLambda.Source
