import Mathlib
import NamedLambda.Failure
import NamedLambda.Proofs.Tokenization

/-!
This module contains the places of syntax errors. The first issue of a text that is turned down is at the
token, the character or the comment that is at fault, or at the end of the text. Exactly what is at fault
is marked in its line, and underlined when the line is shown.
-/

namespace NamedLambda

open Text (Colour Paint firstLine lastLine Position)

namespace Text

theorem slice_natCast {α : Type} (items : List α) (start stop : Nat)
    : slice items start stop = (items.take stop).drop start := by
  have hclamp : ∀ bound : Nat, clamp items.length bound = min bound items.length := by
    intro bound
    rw [clamp, if_neg (by omega), Int.toNat_natCast]
  rw [slice, hclamp, hclamp, List.drop_take]
  by_cases hstart : start ≤ items.length
  · rw [Nat.min_eq_left hstart, List.take_eq_take_iff, List.length_drop]
    omega
  · rw [List.drop_eq_nil_of_le (by omega), List.drop_eq_nil_of_le (by omega), List.take_nil,
      List.take_nil]

theorem slice_append_slice {α : Type} (items : List α) {start stop : Int} (hstart : 0 ≤ start)
    (hle : start ≤ stop)
    : slice items 0 start ++ (slice items start stop ++ slice items stop items.length) = items := by
  rcases Int.eq_ofNat_of_zero_le hstart with ⟨first, hfirst⟩
  rcases Int.eq_ofNat_of_zero_le (Int.le_trans hstart hle) with ⟨last, hlast⟩
  subst hfirst hlast
  have hbegin : slice items 0 (first : Int) = (items.take last).take first := by
    have := slice_natCast items 0 first
    rw [List.drop_zero] at this
    rw [List.take_take, Nat.min_eq_left (by omega)]
    exact this
  rw [hbegin, slice_natCast, slice_natCast, List.take_length, ← List.append_assoc,
    List.take_append_drop, List.take_append_drop]

end Text

namespace Source

def Issue.position (issue : Issue) : Position where
  line := issue.line
  column := issue.column

theorem issues_pairwise (code : String)
    : (tokenize code).issues.Pairwise (fun left right => left.position.Before right.position) := by
  have hordered : (placed 0 (pieces code.toList)).Pairwise (fun left right =>
      (Position.of code.toList left.1).Before (Position.of code.toList right.1)) := by
    apply (pairwise_placed 0 (pieces code.toList)).imp_of_mem
    rintro ⟨place, piece⟩ ⟨place', piece'⟩ hmem hmem' hle
    rcases exists_fits_of_mem_placed hmem with ⟨_, _, _, _, hfits⟩
    have hpos := List.length_pos_iff.2 hfits.text_ne_nil
    have hbound := add_length_le_of_mem_placed hmem'
    rw [flatMap_text_pieces] at hbound
    apply Position.before_of_lt
    · simp only at hle ⊢
      omega
    · simp only at hbound ⊢
      omega
  simp only [tokenize, Issue.ofPieces_eq]
  apply hordered.filterMap
  intro place place' hbefore issue hissue issue' hissue'
  rcases Issue.exists_eq_atOffset hissue with ⟨message, hmessage⟩
  rcases Issue.exists_eq_atOffset hissue' with ⟨message', hmessage'⟩
  rw [hmessage, hmessage']
  exact hbefore

/--
What can be at fault in a text, with the issue that says so. At the end of the text it is nothing, and of
an unclosed comment it is what begins it.
-/
inductive Faulty (code : String) : Issue → List Char → Prop where
  | token {token : Token} (hissues : (tokenize code).issues = [])
      (hmem : token ∈ (tokenize code).tokens) (expected : Expected)
    : Faulty code
        (Issue.atOffset code.toList token.offset
          ("expected " ++ expected.text ++ ", found " ++ "'" ++ token.text ++ "'"))
        token.text.toList
  | endOfInput (hissues : (tokenize code).issues = []) (expected : Expected)
    : Faulty code
        (Issue.atOffset code.toList code.length
          ("expected " ++ expected.text ++ ", found " ++ "end of input"))
        []
  | invalid {offset : Nat} {c : Char} (hmem : (offset, .invalid c) ∈ placed 0 (pieces code.toList))
    : Faulty code
        (Issue.atOffset code.toList offset ("invalid character '" ++ String.singleton c ++ "'")) [c]
  | unclosed {offset : Nat} {text : List Char}
      (hmem : (offset, .unclosed text) ∈ placed 0 (pieces code.toList))
    : Faulty code (Issue.atOffset code.toList offset "unclosed comment") ['/']

/--
A syntax error of which the first issue is at a place of its text, where `marked` is at fault. Either it
has all issues of the tokens, or only this one.
-/
structure SyntaxError.Located (error : SyntaxError) (code : String) (issue : Issue)
    (before marked rest : List Char) : Prop where
  code_eq : error.code = some code
  toList_eq : code.toList = before ++ (marked ++ rest)
  issues_eq : error.issues =
    if (tokenize code).issues = [] then [issue] else (tokenize code).issues
  head?_eq : error.issues.head? = some issue
  issue_eq : issue = Issue.atOffset code.toList before.length issue.message
  faulty : Faulty code issue marked
  newline_not_mem : '\n' ∉ marked
  length_eq : (marked.length : Int) = max error.length 1 ∨
    (marked = [] ∧ rest = [] ∧ error.length = 1)

theorem Mismatch.located {code : String} {mismatch : Mismatch} (hissues : (tokenize code).issues = [])
    (h : ∀ token, mismatch.found = some token → token ∈ (tokenize code).tokens)
    : ∃ issue before marked rest,
        (mismatch.toSyntaxError code).Located code issue before marked rest := by
  rw [toSyntaxError]
  cases hfound : mismatch.found with
  | none =>
    refine ⟨Issue.atOffset code.toList code.length
      ("expected " ++ mismatch.expected.text ++ ", found " ++ "end of input"), code.toList, [], [], ?_⟩
    exact
      { code_eq := rfl
        toList_eq := by simp
        issues_eq := by rw [if_pos hissues]
        head?_eq := rfl
        issue_eq := by rw [String.length_toList]; rfl
        faulty := .endOfInput hissues mismatch.expected
        newline_not_mem := by simp
        length_eq := .inr ⟨rfl, rfl, rfl⟩ }
  | some token =>
    have hmem := h token hfound
    rcases Token.exists_fits hmem with ⟨before, rest, hcode, hoffset, hmatches, _⟩
    have hpos := Token.length_pos hmem
    refine ⟨Issue.atOffset code.toList token.offset
      ("expected " ++ mismatch.expected.text ++ ", found " ++ "'" ++ token.text ++ "'"), before,
      token.text.toList, rest, ?_⟩
    exact
      { code_eq := rfl
        toList_eq := hcode
        issues_eq := by rw [if_pos hissues]
        head?_eq := rfl
        issue_eq := by rw [← hoffset]; rfl
        faulty := .token hissues hmem mismatch.expected
        newline_not_mem := hmatches.newline_not_mem
        length_eq := by
          left
          simp only [String.length_toList]
          omega }

theorem located_of_tokenize {code : String} (h : (tokenize code).issues ≠ [])
    : ∃ issue before marked rest, SyntaxError.Located
        { issues := (tokenize code).issues, code := some code, length := 1 } code issue before marked
          rest := by
  rcases List.exists_cons_of_ne_nil h with ⟨issue, more, hissues⟩
  have hmem : issue ∈ (placed 0 (pieces code.toList)).filterMap (Issue.ofPlace? code.toList) := by
    rw [← Issue.ofPieces_eq]
    show issue ∈ (tokenize code).issues
    rw [hissues]
    exact List.mem_cons_self
  rcases List.mem_filterMap.1 hmem with ⟨⟨offset, piece⟩, hplace, hissue⟩
  rcases exists_fits_of_mem_placed hplace with ⟨before, rest, hcode, hoffset, hfits⟩
  -- One character is marked, which is the first one of the piece.
  have hmarked : ∀ c others, piece.text = c :: others → c ≠ '\n' → Faulty code issue [c] →
      ∃ issue before marked rest, SyntaxError.Located
        { issues := (tokenize code).issues, code := some code, length := 1 } code issue before marked
          rest := by
    intro c others htext hnewline hfaulty
    refine ⟨issue, before, [c], others ++ rest, ?_⟩
    exact
      { code_eq := rfl
        toList_eq := by rw [hcode, htext]; rfl
        issues_eq := by rw [if_neg h]
        head?_eq := by rw [hissues]; rfl
        issue_eq := by
          rcases Issue.exists_eq_atOffset hissue with ⟨message, hmessage⟩
          rw [hmessage, hoffset]
          rfl
        faulty := hfaulty
        newline_not_mem := by simpa using hnewline.symm
        length_eq := by left; rfl }
  cases piece with
  | invalid c =>
    apply hmarked c [] rfl
    · intro heq
      subst heq
      cases hfits with
      | invalid _ hblank => simp [Piece.isBlank] at hblank
    · rw [← Option.some.inj hissue]
      exact .invalid hplace
  | unclosed text =>
    cases hfits with
    | @unclosed text h =>
      apply hmarked '/' ('*' :: text) rfl
      · decide
      · rw [← Option.some.inj hissue]
        exact .unclosed hplace
  | _ => simp [Issue.ofPlace?] at hissue

theorem parseWith_located {α : Type} {reader : List Token → Except Mismatch α} {code : String}
    {error : SyntaxError}
    (hreader : ∀ tokens mismatch token, reader tokens = .error mismatch →
      mismatch.found = some token → token ∈ tokens)
    (h : parseWith reader code = .error error)
    : ∃ issue before marked rest, error.Located code issue before marked rest := by
  rw [parseWith_eq] at h
  split at h
  · next hissues =>
    cases hread : reader (tokenize code).tokens with
    | ok value => simp [hread] at h
    | error mismatch =>
      simp only [hread, Except.error.injEq] at h
      rw [← h]
      apply Mismatch.located hissues
      intro token hfound
      exact hreader _ mismatch token hread hfound
  · next hissues =>
    rw [Except.error.injEq] at h
    rw [← h]
    exact located_of_tokenize hissues

theorem parseTerm_located {code : String} {error : SyntaxError} (h : parseTerm code = .error error)
    : ∃ issue before marked rest, error.Located code issue before marked rest := by
  apply parseWith_located _ h
  intro tokens mismatch token hread hfound
  exact mem_of_readTokens_error hread hfound

theorem parseStatement_located {code : String} {error : SyntaxError}
    (h : parseStatement code = .error error)
    : ∃ issue before marked rest, error.Located code issue before marked rest := by
  apply parseWith_located _ h
  intro tokens mismatch token hread hfound
  exact mem_of_readTokens_error hread hfound

theorem parseBook_located {code : String} {error : SyntaxError} (h : parseBook code = .error error)
    : ∃ issue before marked rest, error.Located code issue before marked rest := by
  apply parseWith_located _ ((parseBook_eq_error_iff code error).1 h)
  intro tokens mismatch token hread hfound
  exact mem_of_readTokens_error hread hfound

namespace SyntaxError.Located

variable {error : SyntaxError} {code : String} {issue : Issue} {before marked rest : List Char}
  (h : error.Located code issue before marked rest)
include h

theorem position_eq
    : issue.position =
      { line := before.count '\n' + 1, column := (lastLine before).length + 1 } := by
  rw [h.issue_eq, h.toList_eq]
  exact Position.of_append before (marked ++ rest)

theorem getElem?_lines_eq
    : (Text.lines code.toList)[before.count '\n']? =
      some (lastLine before ++ (marked ++ firstLine rest)) := by
  have hline : firstLine (marked ++ rest) = marked ++ firstLine rest :=
    Text.takeWhile_of_not_mem h.newline_not_mem rest
  rw [h.toList_eq, ← hline]
  exact Text.getElem?_lines before (marked ++ rest)

theorem diagnostic_eq
    : error.diagnostic =
      .ok
        { Diagnostic.about [.expression ("\n".intercalate (error.issues.map Issue.render))] "" with
          expression := String.ofList (lastLine before ++ (marked ++ firstLine rest))
          start := (lastLine before).length
          stop := (lastLine before).length + max error.length 1 } := by
  have hposition := h.position_eq
  simp only [Issue.position, Position.mk.injEq] at hposition
  have hitem : Text.item? (Text.lines code.toList) (before.count '\n' : Nat) =
      some (lastLine before ++ (marked ++ firstLine rest)) := by
    rw [Text.item?, if_pos (by omega), Int.toNat_natCast]
    exact h.getElem?_lines_eq
  rcases List.head?_eq_some_iff.1 h.head?_eq with ⟨more, hissues⟩
  simp only [SyntaxError.diagnostic, h.code_eq, hissues, hposition, Int.add_sub_cancel, hitem,
    Diagnostic.about]

theorem slice_eq
    : Text.slice (lastLine before ++ (marked ++ firstLine rest)) (lastLine before).length
        ((lastLine before).length + max error.length 1) = marked := by
  rcases h.length_eq with hlength | ⟨hmarked, hrest, hlength⟩
  · rw [← hlength, ← Int.natCast_add, Text.slice_natCast, ← List.append_assoc,
      ← List.length_append, List.take_left, List.drop_left]
  · rw [hmarked, hrest, hlength]
    exact (Text.slice_natCast _ _ ((lastLine before).length + 1)).trans (by simp [firstLine])

theorem length_le : max error.length 1 ≤ max ((marked ++ firstLine rest).length : Int) 1 := by
  rw [List.length_append]
  rcases h.length_eq with hlength | ⟨_, _, hlength⟩
  · omega
  · omega

end SyntaxError.Located

end Source

namespace Diagnostic

theorem repeated_eq {expression : String} {count : Int} (hnonneg : 0 ≤ count)
    (hle : count ≤ max expression.length 1) (c : Char)
    : repeated expression c count = .ok (String.ofList (List.replicate count.toNat c)) := by
  have hroom : count ≤ max maxRoom expression.length := by
    simp only [maxRoom]
    omega
  rw [repeated, if_pos hroom, if_neg (by omega)]

/--
A diagnostic of which the marked part begins within the expression and has at most its length.
-/
structure Fits (diagnostic : Diagnostic) : Prop where
  start_nonneg : 0 ≤ diagnostic.start
  start_le : diagnostic.start ≤ diagnostic.expression.length
  start_lt_stop : diagnostic.start < diagnostic.stop
  stop_le : diagnostic.stop - diagnostic.start ≤ max diagnostic.expression.length 1

namespace Fits

variable {diagnostic : Diagnostic} (h : diagnostic.Fits)
include h

theorem excerpt_eq (paint : Paint) (colour : Colour)
    : diagnostic.excerpt paint colour =
      let expression := diagnostic.expression.toList
      let between (start stop : Int) : String := String.ofList (Text.slice expression start stop)
      .ok ("  " ++ between 0 diagnostic.start
        ++ paint.strong colour (between diagnostic.start diagnostic.stop)
        ++ between diagnostic.stop expression.length ++ "\n"
        ++ "  " ++ String.ofList (List.replicate diagnostic.start.toNat ' ')
        ++ paint.strong colour
          ("^" ++ String.ofList (List.replicate (diagnostic.stop - diagnostic.start - 1).toNat '~'))) := by
  have hstart := h.start_nonneg
  have hle := h.start_le
  have hlt := h.start_lt_stop
  have hstop := h.stop_le
  have hend : diagnostic.markEnd = diagnostic.stop := by
    rw [markEnd]
    omega
  simp only [excerpt, hend]
  rw [repeated_eq hstart (by omega), repeated_eq (by omega) (by omega)]
  rfl

theorem excerpt_plain_eq {paint : Paint} (hplain : paint.IsPlain) (colour : Colour)
    : diagnostic.excerpt paint colour =
      .ok ("  " ++ diagnostic.expression ++ "\n"
        ++ "  " ++ String.ofList (List.replicate diagnostic.start.toNat ' ')
        ++ "^" ++ String.ofList (List.replicate (diagnostic.stop - diagnostic.start - 1).toNat '~')) := by
  have hwhole := Text.slice_append_slice diagnostic.expression.toList h.start_nonneg
    (Int.le_of_lt h.start_lt_stop)
  have hexpression := congrArg String.ofList hwhole
  simp only [String.ofList_append, String.ofList_toList] at hexpression
  rw [h.excerpt_eq]
  conv => rhs; rw [← hexpression]
  simp only [hplain.strong_eq, String.append_assoc]

end Fits

end Diagnostic

namespace Source

/--
The first issue of a syntax error says what is at fault. Its line is shown, and what is at fault in this
line is marked and underlined.
-/
structure SyntaxError.Pinpoints (error : SyntaxError) (code : String) (issue : Issue)
    (marked : List Char) (diagnostic : Diagnostic) : Prop where
  faulty : Faulty code issue marked
  head?_eq : error.issues.head? = some issue
  issues_eq : error.issues =
    if (tokenize code).issues = [] then [issue] else (tokenize code).issues
  issues_ordered : error.issues.Pairwise (fun left right => left.position.Before right.position)
  diagnostic_eq : error.diagnostic = .ok diagnostic
  line_pos : 1 ≤ issue.line
  line_le : issue.line ≤ (Text.lines code.toList).length
  expression_eq : (Text.lines code.toList)[(issue.line - 1).toNat]? =
    some diagnostic.expression.toList
  start_eq : diagnostic.start = issue.column - 1
  fits : diagnostic.Fits
  slice_eq : Text.slice diagnostic.expression.toList diagnostic.start diagnostic.stop = marked
  start_of_nil : marked = [] → diagnostic.start = diagnostic.expression.length
  excerpt_eq : ∀ paint : Paint, paint.IsPlain → ∀ colour, diagnostic.excerpt paint colour =
    .ok ("  " ++ diagnostic.expression ++ "\n"
      ++ "  " ++ String.ofList (List.replicate diagnostic.start.toNat ' ')
      ++ "^" ++ String.ofList (List.replicate (diagnostic.stop - diagnostic.start - 1).toNat '~'))

namespace SyntaxError.Located

variable {error : SyntaxError} {code : String} {issue : Issue} {before marked rest : List Char}
  (h : error.Located code issue before marked rest)
include h

theorem issues_ordered
    : error.issues.Pairwise (fun left right => left.position.Before right.position) := by
  rw [h.issues_eq]
  split
  · exact List.pairwise_singleton _ _
  · exact issues_pairwise code

theorem exists_fits : ∃ diagnostic, error.diagnostic = .ok diagnostic ∧ diagnostic.Fits ∧
    diagnostic.internal = false ∧
    diagnostic.expression = String.ofList (lastLine before ++ (marked ++ firstLine rest)) ∧
    diagnostic.start = (lastLine before).length ∧
    diagnostic.stop = (lastLine before).length + max error.length 1 := by
  have hlength := h.length_le
  refine ⟨_, h.diagnostic_eq, ?_, rfl, rfl, rfl, rfl⟩
  constructor
  · simp
  · simp only [String.length_ofList, List.length_append]
    omega
  · simp only
    omega
  · simp only [String.length_ofList, List.length_append] at hlength ⊢
    omega

theorem pinpoints : ∃ diagnostic, error.Pinpoints code issue marked diagnostic := by
  rcases h.exists_fits with ⟨diagnostic, hdiagnostic, hfits, _, hexpression, hstart, hstop⟩
  have hline := h.getElem?_lines_eq
  have hposition := h.position_eq
  simp only [Issue.position, Position.mk.injEq] at hposition
  refine ⟨diagnostic, ?_⟩
  exact
    { faulty := h.faulty
      head?_eq := h.head?_eq
      issues_eq := h.issues_eq
      issues_ordered := h.issues_ordered
      diagnostic_eq := hdiagnostic
      line_pos := by omega
      line_le := by
        have hbound := (List.getElem?_eq_some_iff.1 hline).1
        omega
      expression_eq := by
        rw [hposition.1, Int.add_sub_cancel, Int.toNat_natCast, hexpression, String.toList_ofList]
        exact hline
      start_eq := by omega
      fits := hfits
      slice_eq := by
        rw [hexpression, hstart, hstop, String.toList_ofList]
        exact h.slice_eq
      start_of_nil := by
        intro hmarked
        rcases h.length_eq with hlength | ⟨_, hrest, _⟩
        · rw [hmarked, List.length_nil] at hlength
          omega
        · rw [hstart, hexpression, hmarked, hrest, String.length_ofList]
          simp [firstLine]
      excerpt_eq := by
        intro paint hplain
        exact hfits.excerpt_plain_eq hplain }

end SyntaxError.Located

/--
A text that cannot be read is turned down with the exact place of what is at fault.
-/
theorem parse_error_pinpoints {code : String} {error : SyntaxError}
    (h : parseTerm code = .error error ∨ parseStatement code = .error error ∨
      parseBook code = .error error)
    : ∃ issue marked diagnostic, error.Pinpoints code issue marked diagnostic := by
  have hlocated : ∃ issue before marked rest, error.Located code issue before marked rest := by
    rcases h with hterm | hstatement | hbook
    · exact parseTerm_located hterm
    · exact parseStatement_located hstatement
    · exact parseBook_located hbook
  rcases hlocated with ⟨issue, before, marked, rest, hlocated⟩
  rcases hlocated.pinpoints with ⟨diagnostic, hpinpoints⟩
  exact ⟨issue, marked, diagnostic, hpinpoints⟩

theorem parse_error_pinpoints_unclosed
    : let code := "x #\n  /* y"
      let error : SyntaxError :=
        { issues :=
            [{ line := 1, column := 3, message := "invalid character '#'" },
              { line := 2, column := 3, message := "unclosed comment" }]
          code := some code
          length := 1 }
      parseTerm code = .error error ∧
        ∃ issue marked diagnostic, error.Pinpoints code issue marked diagnostic := by
  intro code error
  have herror : parseTerm code = .error error := by cbv
  exact ⟨herror, parse_error_pinpoints (Or.inl herror)⟩

end Source

end NamedLambda
