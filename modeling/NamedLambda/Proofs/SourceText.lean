import NamedLambda.Proofs.History
import NamedLambda.Proofs.Printing

/-!
This module contains the source texts of the book of a session: the text that it was loaded from, followed
by the lines that were accepted since, and the text that the book is printed as.
-/

namespace NamedLambda

open Source (parseBook parseStatement)

/--
A text that is read to a book of which the given one is the resolution.
-/
def Book.HasSource (book : Book) (text : String) : Prop :=
  ∃ parsed, parseBook text = .ok parsed ∧ parsed.resolve = book

namespace Book.HasSource

variable {book : Book} {text : String}

theorem append_line (h : book.HasSource text) {line : String} {definition : Definition}
    (hline : parseStatement line = .ok (.definition definition)) {result : Book}
    (haccept : book.accept definition = .ok result) : result.HasSource (text ++ "\n" ++ line) := by
  rcases h with ⟨parsed, hparse, hresolve⟩
  refine ⟨parsed.define definition, Source.parseBook_append_line hparse hline, ?_⟩
  rw [← resolve_define_resolve, hresolve]
  exact ((accept_eq_ok_iff book definition result).1 haccept).2

-- Resolution cannot be seen in the text.
theorem render (h : book.HasSource text) : book.HasSource book.render := by
  rcases h with ⟨parsed, hparse, hresolve⟩
  refine ⟨parsed, ?_, hresolve⟩
  rw [← hresolve, render_resolve]
  apply parseBook_render
  exact Source.readable_of_parseBook hparse

end Book.HasSource

def Entry.acceptedLine? (entry : Entry) : Option String :=
  match entry.call with
  | .evaluate line _ _ => if entry.isAccepted then some line else none
  | .run _ => none

theorem Entry.acceptedLine?_eq_none {entry : Entry} (h : entry.isAccepted = false)
    : entry.acceptedLine? = none := by
  unfold acceptedLine?
  rw [h]
  split
  · rfl
  · rfl

theorem Call.exists_definition {call : Call} (h : call.isDefinition = true)
    : ∃ line number mode definition, call = evaluate line number mode ∧
        parseStatement line = .ok (.definition definition) := by
  cases call with
  | run mode => simp [isDefinition] at h
  | evaluate line number mode =>
    simp only [isDefinition] at h
    split at h
    · next definition hparse => exact ⟨line, number, mode, definition, rfl, hparse⟩
    · simp at h

namespace Session

theorem hasSource_of_load {code : String} {session loaded : Session} {requireMain : Bool}
    (hbook : parseBook code = .ok session.book) (hload : session.load requireMain = (loaded, .ok ()))
    : loaded.book.HasSource code :=
  ⟨session.book, hbook, (resolve_of_load hload).1⟩

variable {session after : Session} {fuel : Nat} {call : Call} {outcome : Except Failure (List Term)}

theorem accept_of_answer {line : String} {number : Option Int} {mode : Mode} {definition : Definition}
    {book : Book} {terms : List Term} (hparse : parseStatement line = .ok (.definition definition))
    (h : session.answer fuel (.evaluate line number mode) = some (.ok (book, terms)))
    : session.book.accept definition = .ok book := by
  simp only [answer, Call.request, hparse, Option.some.injEq] at h
  cases haccept : session.book.accept definition with
  | error failure => simp [haccept, Except.map] at h
  | ok result =>
    simp only [haccept, Except.map, Except.ok.injEq, Prod.mk.injEq] at h
    rw [h.1]

theorem acceptedLine?_cases (good : session.book.Good)
    (h : session.perform fuel call = some (after, outcome))
    : (Entry.acceptedLine? { call, outcome } = none ∧ after.book = session.book) ∨
      (∃ line definition, Entry.acceptedLine? { call, outcome } = some line ∧
        parseStatement line = .ok (.definition definition) ∧
        session.book.accept definition = .ok after.book) := by
  cases haccepted : Entry.isAccepted { call, outcome } with
  | false =>
    left
    constructor
    · exact Entry.acceptedLine?_eq_none haccepted
    · exact (alike_perform good h haccepted).book_eq
  | true =>
    right
    rcases perform_cases good h with
      ⟨failure, reporter, _, _, houtcome⟩ | ⟨book, terms, reporter, hanswer, hafter, _⟩
    · simp [houtcome, Entry.isAccepted, Except.isOk, Except.toBool] at haccepted
    · have hcall := haccepted
      simp only [Entry.isAccepted, Bool.and_eq_true] at hcall
      rcases Call.exists_definition hcall.1 with ⟨line, number, mode, definition, heq, hparse⟩
      subst heq
      refine ⟨line, definition, ?_, hparse, ?_⟩
      · simp [Entry.acceptedLine?, haccepted]
      · rw [hafter]
        exact accept_of_answer hparse hanswer

theorem load_eq {book : Book} (h : session.book.resolve = book) (hcheck : book.check = .ok ())
    : session.load false = ({ session with book }, .ok ()) := by
  simp [load, h, hcheck]

end Session

theorem Run.hasSource {session final : Session} {entries : List Entry}
    (run : Run session entries final) (good : session.book.Good) {text : String}
    (h : session.book.HasSource text)
    : final.book.HasSource ("\n".intercalate (text :: entries.filterMap Entry.acceptedLine?)) := by
  induction run generalizing text with
  | nil session =>
    rw [List.filterMap_nil, String.intercalate_singleton]
    exact h
  | cons hperform _ ih =>
    have hnext := Session.perform_good good hperform
    rcases Session.acceptedLine?_cases good hperform with
      ⟨hnone, hbook⟩ | ⟨line, definition, hsome, hparse, haccept⟩
    · rw [List.filterMap_cons_none hnone]
      apply ih hnext
      rw [hbook]
      exact h
    · rw [List.filterMap_cons_some hsome, ← intercalate_append_line]
      apply ih hnext
      exact h.append_line hparse haccept

section

variable {files : String → FileEntry} {reporter : Reporter} {path : Option String}
  {form order code : String} {limit : Option Limit} {session loaded final : Session}
  {requireMain : Bool} {entries : List Entry}

/--
The text that a session was loaded from, followed by the lines of the definitions that it accepted, is
loaded to the book of the session.
-/
theorem load_accepted_lines (hbook : parseBook code = .ok session.book)
    (hload : session.load requireMain = (loaded, .ok ())) (run : Run loaded entries final)
    : ∃ book,
        parseBook ("\n".intercalate (code :: entries.filterMap Entry.acceptedLine?)) = .ok book ∧
        ∀ fresh : Session, fresh.book = book →
          fresh.load false = ({ fresh with book := final.book }, .ok ()) := by
  have good := Session.good_of_load hbook hload
  rcases run.hasSource good (Session.hasSource_of_load hbook hload) with ⟨book, hparse, hresolve⟩
  refine ⟨book, hparse, ?_⟩
  intro fresh hfresh
  apply Session.load_eq
  · rw [hfresh, hresolve]
  · exact (run.good good).check_eq_ok

theorem load_accepted_lines_redefinition
    : let session : Session :=
        { path := "<in>", form := .normal, order := .normal, limit := none
          book := Book.ofList [{ name := "I", body := .lam (some "x") (.var "x") }]
          results := []
          reporter := Reporter.new false .plain }
      let rejected : Entry :=
        { call := .evaluate "K = λa b" none .run, outcome := .error (.unbound "b") }
      let added : Entry := { call := .evaluate "K = λa λ* a" none .run, outcome := .ok [] }
      let replaced : Entry := { call := .evaluate "I = λK (K I)" none .run, outcome := .ok [] }
      let book :=
        Book.ofList
          [{ name := "I", body := .lam (some "K") (.app (.var "K") (.ref "I")) },
            { name := "K", body := .lam (some "a") (.lam none (.var "a")) }]
      parseBook "I = λx x // identity" = .ok session.book ∧ session.load false = (session, .ok ()) ∧
        ∃ final, Run session [rejected, added, replaced] final ∧ final.book = book ∧
          ∃ parsed,
            parseBook "I = λx x // identity\nK = λa λ* a\nI = λK (K I)" = .ok parsed ∧
            ∀ fresh : Session, fresh.book = parsed →
              fresh.load false = ({ fresh with book }, .ok ()) := by
  intro session rejected added replaced book
  have hbook : parseBook "I = λx x // identity" = .ok session.book := by cbv
  have hload : session.load false = (session, .ok ()) := by cbv
  let first : Session :=
    { session with reporter := session.reporter.begin "<in>" (some "K = λa b") none }
  let second : Session :=
    { session with
      book := session.book.define { name := "K", body := .lam (some "a") (.lam none (.var "a")) }
      reporter := session.reporter.register "<in>" }
  let final : Session := { session with book, reporter := session.reporter.register "<in>" }
  have hrejected : session.perform 0 rejected.call = some (first, rejected.outcome) := by cbv
  have hadded : first.perform 0 added.call = some (second, added.outcome) := by cbv
  have hreplaced : second.perform 0 replaced.call = some (final, replaced.outcome) := by cbv
  have run : Run session [rejected, added, replaced] final :=
    .cons hrejected (.cons hadded (.cons hreplaced (.nil final)))
  have hlines : [rejected, added, replaced].filterMap Entry.acceptedLine? =
      ["K = λa λ* a", "I = λK (K I)"] := by cbv
  have hsource := load_accepted_lines hbook hload run
  rw [hlines] at hsource
  exact ⟨hbook, hload, final, run, rfl, hsource⟩

/--
The text that the book of a session is printed as is loaded to that book.
-/
theorem load_rendered_book
    (hcreate : Session.create files reporter path form order limit = .ok session)
    (hload : session.load requireMain = (loaded, .ok ())) (run : Run loaded entries final)
    : ∃ book, parseBook final.book.render = .ok book ∧
        book.resolve.check = .ok () ∧ book.resolve = final.book := by
  rcases Session.exists_code_of_create hcreate with ⟨code, hbook⟩
  have good := Session.good_of_load hbook hload
  have hsource := run.hasSource good (Session.hasSource_of_load hbook hload)
  rcases hsource.render with ⟨book, hparse, hresolve⟩
  refine ⟨book, hparse, ?_, hresolve⟩
  rw [hresolve]
  exact (run.good good).check_eq_ok

theorem load_rendered_book_shadowed
    : let files (path : String) : FileEntry :=
        if path = "b" then .file "main = @x @* x".toUTF8.toList else .missing
      let session : Session :=
        { path := "b", form := .normal, order := .normal, limit := none
          book := Book.ofList [{ name := "main", body := .lam (some "x") (.lam none (.var "x")) }]
          results := []
          reporter := (Reporter.new false .plain).register "b" }
      let entries : List Entry :=
        [{ call := .evaluate "main = (f main)" none .run, outcome := .error (.unbound "f") },
          { call := .evaluate "f = @main (main f f)" none .run, outcome := .ok [] }]
      Session.create files (Reporter.new false .plain) (some "b") "nf" "normal" none = .ok session ∧
        session.load true = (session, .ok ()) ∧
        ∃ final, Run session entries final ∧
          final.book.render = "main = λx λ* x\nf = λmain ((main f) f)" ∧
          ∃ book, parseBook "main = λx λ* x\nf = λmain ((main f) f)" = .ok book ∧
            book.resolve.check = .ok () ∧ book.resolve = final.book := by
  intro files session entries
  have hcreate : Session.create files (Reporter.new false .plain) (some "b") "nf" "normal" none =
      .ok session := by cbv
  have hload : session.load true = (session, .ok ()) := by cbv
  let middle : Session :=
    { session with reporter := session.reporter.begin "b" (some "main = (f main)") none }
  let final : Session :=
    { session with
      book := session.book.define
        { name := "f"
          body := .lam (some "main") (.app (.app (.var "main") (.ref "f")) (.ref "f")) }
      reporter := session.reporter.register "b" }
  have hfirst : session.perform 0 (.evaluate "main = (f main)" none .run) =
      some (middle, .error (.unbound "f")) := by cbv
  have hsecond : middle.perform 0 (.evaluate "f = @main (main f f)" none .run) =
      some (final, .ok []) := by cbv
  have run : Run session entries final := .cons hfirst (.cons hsecond (.nil final))
  have hrender : final.book.render = "main = λx λ* x\nf = λmain ((main f) f)" := by cbv
  have hsource := load_rendered_book hcreate hload run
  rw [hrender] at hsource
  exact ⟨hcreate, hload, final, run, hrender, hsource⟩

end

end NamedLambda
