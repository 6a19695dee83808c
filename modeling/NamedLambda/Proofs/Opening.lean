import NamedLambda.Session
import NamedLambda.Proofs.Encoding
import NamedLambda.Proofs.Reports

/-!
This module contains what opening a session on a file comes to. A form or order that is not implemented, a
file that cannot be opened and a book that cannot be parsed are reported as errors of the user. A path
that no file can have and octets that are no text lead to a fault.
-/

namespace NamedLambda

open Source (parseBook)

theorem Form.ofName_error {name : String} {failure : Failure} (h : ofName name = .error failure)
    : failure = .notImplemented "form" name := by
  unfold ofName at h
  split at h
  · simp at h
  · simp at h
  · simpa using h.symm

theorem Order.ofName_error {name : String} {failure : Failure} (h : ofName name = .error failure)
    : failure = .notImplemented "order" name := by
  unfold ofName at h
  split at h
  · simp at h
  · simpa using h.symm

section

variable {files : String → FileEntry} {path : String}

theorem readText_eq_fault_iff (cause : Fault)
    : readText files path = .error (.fault cause) ↔
      '\x00' ∈ path.toList ∧ cause = .nullInPath ∨
        '\x00' ∉ path.toList ∧ ∃ octets error, files path = .file octets ∧
          Text.decode octets = .error error ∧ cause = .undecodable error := by
  unfold readText
  by_cases hnull : '\x00' ∈ path.toList
  · simp [hnull, eq_comm]
  · simp only [hnull, List.contains_eq_mem, decide_false, Bool.false_eq_true, if_false, false_and,
      not_false_eq_true, true_and, false_or]
    cases hfile : files path with
    | missing => simp
    | directory => simp
    | file octets =>
      cases hdecode : Text.decode octets with
      | ok text => simp [hdecode]
      | error error => simp [hdecode, eq_comm]

theorem unreadable_of_readText {failure : Failure} (hfault : ∀ cause, failure ≠ .fault cause)
    (h : readText files path = .error failure) : failure = .unreadable path := by
  unfold readText at h
  split at h
  · exact absurd (Except.error.inj h).symm (hfault .nullInPath)
  · split at h
    · simpa using h.symm
    · simpa using h.symm
    · split at h
      · simp at h
      · next error _ => exact absurd (Except.error.inj h).symm (hfault (.undecodable error))

theorem readText_ne_fault_iff
    : (∀ cause, readText files path ≠ .error (.fault cause)) ↔
      '\x00' ∉ path.toList ∧ ∀ octets, files path = .file octets →
        ∃ text : List Char, text.flatMap String.utf8EncodeChar = octets := by
  simp only [ne_eq, readText_eq_fault_iff, ← Text.decode_eq_ok_iff]
  constructor
  · intro h
    have hnull : '\x00' ∉ path.toList := by
      intro hnull
      exact h .nullInPath (Or.inl ⟨hnull, rfl⟩)
    refine ⟨hnull, ?_⟩
    intro octets hfile
    cases hdecode : Text.decode octets with
    | ok text => exact ⟨text, rfl⟩
    | error error =>
      exact absurd (Or.inr ⟨hnull, octets, error, hfile, hdecode, rfl⟩) (h (.undecodable error))
  · intro h cause hcause
    rcases hcause with ⟨hnull, _⟩ | ⟨_, octets, error, hfile, hdecode, _⟩
    · exact h.1 hnull
    · rcases h.2 octets hfile with ⟨text, htext⟩
      simp [hdecode] at htext

end

theorem Reporter.output_guard_fault (reporter : Reporter) (cause : Fault)
    : (reporter.guard (Failure.fault cause).interruption).1.output =
      reporter.output ++ (reporter.trace ++ reporter.paint.strong .red "[internal] " ++
        reporter.paint.strong .red "error: " ++ (faultDiagnostic cause).painted reporter.paint ++
        "\n") := by
  simp only [Failure.interruption, Failure.diagnostic, guard, error, faultDiagnostic, writeExcerpt,
    Diagnostic.hasExcerpt, Bool.not_true, Bool.false_and, Bool.false_eq_true, if_false, if_true]
  split
  · rfl
  · rfl

namespace Session

structure Opened (files : String → FileEntry) (reporter : Reporter) (path : Option String)
    (form order : String) (limit : Option Limit) (session : Session) : Prop where
  form_eq : Form.ofName form = .ok session.form
  order_eq : Order.ofName order = .ok session.order
  limit_eq : session.limit = limit
  path_eq : session.path = path.getD interactivePath
  reporter_eq : session.reporter = reporter.register session.path
  book_eq : (path = none ∧ session.book = .empty) ∨
    ∃ file code, path = some file ∧ readText files file = .ok code ∧
      parseBook code = .ok session.book

theorem opened_of_create {files : String → FileEntry} {reporter : Reporter} {path : Option String}
    {form order : String} {limit : Option Limit} {session : Session}
    (h : create files reporter path form order limit = .ok session)
    : Opened files reporter path form order limit session := by
  simp only [create, bind, Except.bind, pure, Except.pure] at h
  cases hform : Form.ofName form with
  | error failure => simp [hform] at h
  | ok knownForm =>
    cases horder : Order.ofName order with
    | error failure => simp [hform, horder] at h
    | ok knownOrder =>
      cases path with
      | none =>
        simp only [hform, horder, Except.ok.injEq] at h
        rw [← h]
        exact ⟨hform, horder, rfl, rfl, rfl, Or.inl ⟨rfl, rfl⟩⟩
      | some file =>
        cases hread : readText files file with
        | error failure => simp [hform, horder, hread] at h
        | ok code =>
          cases hparse : parseBook code with
          | error error => simp [hform, horder, hread, hparse, Except.mapError] at h
          | ok book =>
            simp only [hform, horder, hread, hparse, Except.mapError, Except.ok.injEq] at h
            rw [← h]
            exact ⟨hform, horder, rfl, rfl, rfl, Or.inr ⟨file, code, rfl, hread, hparse⟩⟩

-- A session without a path begins as if it had read an empty text.
theorem exists_code_of_create {files : String → FileEntry} {reporter : Reporter} {path : Option String}
    {form order : String} {limit : Option Limit} {session : Session}
    (h : create files reporter path form order limit = .ok session)
    : ∃ code, parseBook code = .ok session.book := by
  rcases (opened_of_create h).book_eq with ⟨_, hempty⟩ | ⟨file, code, _, _, hparse⟩
  · have hnothing : parseBook "" = .ok Book.empty := by cbv
    rw [hempty]
    exact ⟨"", hnothing⟩
  · exact ⟨code, hparse⟩

/--
Opening gives a session, or ends with a failure that is reported as an error of the user.
-/
def Faultless : Except Failure Session → Prop
  | .ok _ => True
  | .error failure => ∃ diagnostic, failure.Reported diagnostic

theorem not_faultless_fault (cause : Fault) : ¬Faultless (.error (.fault cause)) := by
  intro h
  rcases h with ⟨diagnostic, hreported⟩
  simpa [Failure.diagnostic] using hreported.diagnostic_eq

section

variable {files : String → FileEntry} {reporter : Reporter} {path form order : String}
  {limit : Option Limit}

theorem create_eq_error_iff (failure : Failure)
    : create files reporter (some path) form order limit = .error failure ↔
      Form.ofName form = .error failure ∨ (∃ known, Form.ofName form = .ok known) ∧
        (Order.ofName order = .error failure ∨ (∃ known, Order.ofName order = .ok known) ∧
          (readText files path = .error failure ∨
            ∃ code error, readText files path = .ok code ∧ parseBook code = .error error ∧
              .syntaxError error = failure)) := by
  simp only [create, bind, Except.bind, pure, Except.pure]
  cases Form.ofName form with
  | error cause => simp
  | ok knownForm =>
    cases Order.ofName order with
    | error cause => simp
    | ok knownOrder =>
      cases readText files path with
      | error cause => simp
      | ok code =>
        cases hparse : parseBook code with
        | error error => simp [hparse, Except.mapError]
        | ok book => simp [hparse, Except.mapError]

theorem create_eq_fault_iff (cause : Fault)
    : create files reporter (some path) form order limit = .error (.fault cause) ↔
      (∃ known, Form.ofName form = .ok known) ∧ (∃ known, Order.ofName order = .ok known) ∧
        readText files path = .error (.fault cause) := by
  have hform : Form.ofName form ≠ .error (.fault cause) := by
    intro h
    simpa using Form.ofName_error h
  have horder : Order.ofName order ≠ .error (.fault cause) := by
    intro h
    simpa using Order.ofName_error h
  simp [create_eq_error_iff, hform, horder]

theorem located_of_create {error : Source.SyntaxError}
    (h : create files reporter (some path) form order limit = .error (.syntaxError error))
    : ∃ code issue before marked rest, error.Located code issue before marked rest := by
  rcases (create_eq_error_iff _).1 h with
    hform | ⟨_, horder | ⟨_, hread | ⟨code, other, _, hparse, heq⟩⟩⟩
  · simpa using Form.ofName_error hform
  · simpa using Order.ofName_error horder
  · simpa using unreadable_of_readText (by simp) hread
  · rw [Failure.syntaxError.injEq] at heq
    rw [← heq]
    exact ⟨code, Source.parseBook_located hparse⟩

theorem faultless_iff_ne_fault
    : Faultless (create files reporter (some path) form order limit) ↔
      ∀ cause, create files reporter (some path) form order limit ≠ .error (.fault cause) := by
  constructor
  · intro h cause hcreate
    rw [hcreate] at h
    exact not_faultless_fault cause h
  · intro h
    cases hcreate : create files reporter (some path) form order limit with
    | ok session => trivial
    | error failure =>
      apply Failure.exists_reported
      · intro cause hcause
        exact h cause (by rw [hcreate, hcause])
      · intro error herror
        rw [herror] at hcreate
        exact located_of_create hcreate

end

/--
Opening a session on a file is faultless exactly if the form or the order is not implemented, or if the
path has no null character and a file there is encoded text.
-/
theorem create_faultless_iff (files : String → FileEntry) (reporter : Reporter)
    (path form order : String) (limit : Option Limit)
    : Faultless (create files reporter (some path) form order limit) ↔
      (∀ known, Form.ofName form ≠ .ok known) ∨ (∀ known, Order.ofName order ≠ .ok known) ∨
        '\x00' ∉ path.toList ∧ ∀ octets, files path = .file octets →
          ∃ text : List Char, text.flatMap String.utf8EncodeChar = octets := by
  rw [faultless_iff_ne_fault, ← readText_ne_fault_iff]
  simp only [ne_eq, create_eq_fault_iff]
  constructor
  · intro h
    by_contra hnot
    simp only [not_or, not_forall, Decidable.not_not] at hnot
    rcases hnot with ⟨hform, horder, cause, hread⟩
    exact h cause ⟨hform, horder, hread⟩
  · intro h cause hcause
    rcases hcause with ⟨⟨knownForm, hform⟩, ⟨knownOrder, horder⟩, hread⟩
    rcases h with hnone | hnone | hnone
    · exact hnone knownForm hform
    · exact hnone knownOrder horder
    · exact hnone cause hread

/--
No text is encoded with the octet `0xFF`. A file of it alone is reported by its decoding, as internal.
-/
theorem not_faultless_of_invalidOctet
    : let files (path : String) : FileEntry := if path = "b.lc" then .file [0xFF] else .missing
      let reporter := Reporter.new true .plain
      let failure : Failure :=
        .fault (.undecodable { first := 0xFF, offset := 0, length := 1, reason := .invalidStart })
      create files reporter (some "b.lc") "nf" "normal" none = .error failure ∧
        ¬Faultless (create files reporter (some "b.lc") "nf" "normal" none) ∧
        ∃ message,
          (reporter.guard failure.interruption).1.output = "[internal] error: " ++ message := by
  intro files reporter failure
  have hcreate : create files reporter (some "b.lc") "nf" "normal" none = .error failure := by cbv
  refine ⟨hcreate, ?_, ?_⟩
  · rw [hcreate]
    exact not_faultless_fault _
  · have hmark : reporter.output ++ (reporter.trace ++ reporter.paint.strong .red "[internal] " ++
        reporter.paint.strong .red "error: ") = "[internal] error: " := by cbv
    rw [Reporter.output_guard_fault, String.append_assoc, ← String.append_assoc, hmark]
    exact ⟨_, rfl⟩

end Session

end NamedLambda
