import NamedLambda.Proofs.GoodBook
import NamedLambda.Proofs.Parsing
import NamedLambda.Proofs.Trajectory

/-!
This module contains the calls that a loaded session takes. On a good book the answer to a call is told
by the book and the choices of the session alone, and a call that fails keeps both book and results.
-/

namespace NamedLambda

open Source (parseStatement)

/--
A call of a session: evaluate a line, or reduce `main`.
-/
inductive Call where
  | evaluate (line : String) (number : Option Int) (mode : Mode)
  | run (mode : Mode)
  deriving DecidableEq, Repr, Inhabited

def Session.perform (fuel : Nat) (session : Session) : Call → Option (Session × Except Failure (List Term))
  | .evaluate line number mode => session.evaluate fuel line number mode
  | .run mode => session.run fuel mode

/--
What a call comes to once its line is read and its term resolved and checked.
-/
inductive Request where
  | define (definition : Definition)
  | reduce (term : Term) (mode : Mode)

namespace Call

def request (book : Book) : Call → Except Failure Request
  | evaluate line _ mode =>
    match parseStatement line with
    | .error error => .error (.syntaxError error)
    | .ok (.definition definition) => .ok (.define definition)
    | .ok (.term term) =>
      let term := term.resolve book.names
      term.check.map (fun _ => .reduce term mode)
  | run mode =>
    match book.find? "main" with
    | none => .error (.fault (.missingKey "main"))
    | some body => .ok (.reduce body mode)

def isDefinition : Call → Bool
  | evaluate line _ _ =>
    match parseStatement line with
    | .ok (.definition _) => true
    | _ => false
  | run _ => false

variable {book : Book} {call : Call}

theorem evaluate_of_request_define {definition : Definition}
    (h : call.request book = .ok (.define definition))
    : ∃ line number mode, call = evaluate line number mode ∧
        parseStatement line = .ok (.definition definition) := by
  cases call with
  | run mode =>
    simp only [request] at h
    split at h
    · simp at h
    · simp at h
  | evaluate line number mode =>
    simp only [request] at h
    split at h
    · simp at h
    · next parsed hparse =>
      simp only [Except.ok.injEq, Request.define.injEq] at h
      rw [h] at hparse
      exact ⟨line, number, mode, rfl, hparse⟩
    · next source hparse =>
      cases hcheck : (source.resolve book.names).check with
      | error failure => simp [hcheck, Except.map] at h
      | ok value => simp [hcheck, Except.map] at h

theorem run_or_evaluate_of_request_reduce {term : Term} {mode : Mode}
    (h : call.request book = .ok (.reduce term mode))
    : (call = run mode ∧ book.find? "main" = some term) ∨
      (∃ line number source, call = evaluate line number mode ∧
        parseStatement line = .ok (.term source) ∧
        source.resolve book.names = term ∧ term.check = .ok ()) := by
  cases call with
  | run given =>
    simp only [request] at h
    split at h
    · simp at h
    · next body hfind =>
      simp only [Except.ok.injEq, Request.reduce.injEq] at h
      rw [h.1] at hfind
      rw [h.2]
      exact Or.inl ⟨rfl, hfind⟩
  | evaluate line number given =>
    simp only [request] at h
    split at h
    · simp at h
    · simp at h
    · next source hparse =>
      cases hcheck : (source.resolve book.names).check with
      | error failure => simp [hcheck, Except.map] at h
      | ok value =>
        simp only [hcheck, Except.map, Except.ok.injEq, Request.reduce.injEq] at h
        rw [h.1] at hcheck
        rw [h.2]
        exact Or.inr ⟨line, number, source, rfl, hparse, h.1, hcheck⟩

theorem goodIn_of_request_reduce (good : book.Good) {term : Term} {mode : Mode}
    (h : call.request book = .ok (.reduce term mode)) : term.GoodIn book.names := by
  rcases run_or_evaluate_of_request_reduce h with
    ⟨_, hfind⟩ | ⟨line, number, source, _, hparse, hresolve, hcheck⟩
  · exact good.of_find? hfind
  · rw [← hresolve] at hcheck ⊢
    apply Term.goodIn_resolve
    · rw [Source.refs_of_parseStatement_term hparse]
      simp
    · exact hcheck

end Call

namespace Session

def reduced (fuel : Nat) (session : Session) (term : Term) (mode : Mode)
    : Option (Except Failure (List Term)) :=
  (session.reduce fuel term mode).map Prod.snd

def answer (fuel : Nat) (session : Session) (call : Call) : Option (Except Failure (Book × List Term)) :=
  match call.request session.book with
  | .error failure => some (.error failure)
  | .ok (.define definition) => some ((session.book.accept definition).map (·, []))
  | .ok (.reduce term mode) =>
    (session.reduced fuel term mode).map (fun result => result.map (session.book, ·))

def settle (session : Session) (reporter : Reporter)
    : Except Failure (Book × List Term) → Session × Except Failure (List Term)
  | .error failure => ({ session with reporter }, .error failure)
  | .ok (book, terms) => ({ session with book, results := terms, reporter }, .ok terms)

structure Alike (session other : Session) : Prop where
  book_eq : other.book = session.book
  form_eq : other.form = session.form
  order_eq : other.order = session.order
  limit_eq : other.limit = session.limit

variable {session other : Session} {fuel : Nat}

theorem Alike.refl (session : Session) : Alike session session where
  book_eq := rfl
  form_eq := rfl
  order_eq := rfl
  limit_eq := rfl

theorem Alike.symm (alike : Alike session other) : Alike other session where
  book_eq := alike.book_eq.symm
  form_eq := alike.form_eq.symm
  order_eq := alike.order_eq.symm
  limit_eq := alike.limit_eq.symm

theorem Alike.trans {third : Session} (alike : Alike session other) (alike' : Alike other third)
    : Alike session third where
  book_eq := alike'.book_eq.trans alike.book_eq
  form_eq := alike'.form_eq.trans alike.form_eq
  order_eq := alike'.order_eq.trans alike.order_eq
  limit_eq := alike'.limit_eq.trans alike.limit_eq

theorem Alike.good (alike : Alike session other) (good : session.book.Good) : other.book.Good := by
  rw [alike.book_eq]
  exact good

theorem reduced_eq (session : Session) (fuel : Nat) (term : Term) (mode : Mode)
    : session.reduced fuel term mode =
      match mode with
      | .run =>
        (NamedLambda.reduce session.book session.form session.order session.limit 0
          (fuelFor session.limit fuel) term).map
            (fun reduction => reduction.result.map (fun final => [final.term]))
      | .stepped =>
        (reduceStepped session.book session.form session.order session.limit 0
          (fuelFor session.limit fuel) term).map Reduction.result
      | .unknown name => some (.error (.unknownMode name)) := by
  unfold reduced reduce
  cases mode with
  | run =>
    simp only
    cases NamedLambda.reduce session.book session.form session.order session.limit 0
        (fuelFor session.limit fuel) term with
    | none => rfl
    | some reduction =>
      simp only [bind, Option.bind, Option.map_some]
      cases reduction.result with
      | error failure => rfl
      | ok final => rfl
  | stepped =>
    simp only
    cases reduceStepped session.book session.form session.order session.limit 0
        (fuelFor session.limit fuel) term with
    | none => rfl
    | some reduction => rfl
  | unknown name => rfl

theorem Alike.reduced_eq (alike : Alike session other) (fuel : Nat) (term : Term) (mode : Mode)
    : other.reduced fuel term mode = session.reduced fuel term mode := by
  rw [Session.reduced_eq, Session.reduced_eq]
  rw [alike.book_eq, alike.form_eq, alike.order_eq, alike.limit_eq]

theorem Alike.answer_eq (alike : Alike session other) (fuel : Nat) (call : Call)
    : other.answer fuel call = session.answer fuel call := by
  unfold answer
  rw [alike.book_eq]
  split
  · rfl
  · rfl
  · rw [alike.reduced_eq]

theorem exists_reduce_eq (session : Session) (fuel : Nat) (term : Term) (mode : Mode)
    : ∃ reporter, session.reduce fuel term mode =
        (session.reduced fuel term mode).map (fun result => ({ session with reporter }, result)) := by
  unfold reduced
  cases hreduce : session.reduce fuel term mode with
  | none => exact ⟨session.reporter, rfl⟩
  | some reduced =>
    rcases reduced with ⟨after, result⟩
    suffices ∃ reporter, after = { session with reporter } by
      rcases this with ⟨reporter, hafter⟩
      exact ⟨reporter, by simp [hafter]⟩
    unfold reduce at hreduce
    cases mode with
    | run =>
      simp only [Option.bind_eq_bind, Option.bind_eq_some_iff] at hreduce
      rcases hreduce with ⟨reduction, _, hresult⟩
      split at hresult
      · simp only [pure, Option.some.injEq, Prod.mk.injEq] at hresult
        exact ⟨session.reporter, hresult.1.symm⟩
      · simp only [pure, Option.some.injEq, Prod.mk.injEq] at hresult
        exact ⟨_, hresult.1.symm⟩
    | stepped =>
      simp only [Option.bind_eq_bind, Option.bind_eq_some_iff, pure, Option.some.injEq,
        Prod.mk.injEq] at hreduce
      rcases hreduce with ⟨reduction, _, hafter, _⟩
      exact ⟨session.reporter, hafter.symm⟩
    | unknown name =>
      simp only [Option.some.injEq, Prod.mk.injEq] at hreduce
      exact ⟨session.reporter, hreduce.1.symm⟩

-- Where there is no answer there is no reporter either, and any one will do.
theorem exists_perform_eq (good : session.book.Good) (fuel : Nat) (call : Call)
    : ∃ reporter, session.perform fuel call =
        (session.answer fuel call).map (session.settle reporter) := by
  cases call with
  | run mode =>
    simp only [perform, run, answer, Call.request]
    cases hfind : session.book.find? "main" with
    | none => exact ⟨session.reporter, rfl⟩
    | some body =>
      rcases session.exists_reduce_eq fuel body mode with ⟨reporter, hreduce⟩
      refine ⟨reporter, ?_⟩
      simp only
      rw [hreduce]
      cases session.reduced fuel body mode with
      | none => rfl
      | some result =>
        cases result with
        | error failure => rfl
        | ok terms => rfl
  | evaluate line number mode =>
    simp only [perform, evaluate, answer, Call.request]
    cases hparse : parseStatement line with
    | error error => exact ⟨_, rfl⟩
    | ok statement =>
      cases statement with
      | definition definition =>
        simp only
        rw [define_eq (by exact good)]
        cases session.book.accept definition with
        | error failure => exact ⟨_, rfl⟩
        | ok book => exact ⟨_, rfl⟩
      | term source =>
        simp only
        cases (source.resolve session.book.names).check with
        | error failure => exact ⟨_, rfl⟩
        | ok value =>
          let begun := { session with reporter := session.reporter.begin session.path (some line) number }
          have alike : Alike session begun := ⟨rfl, rfl, rfl, rfl⟩
          rcases begun.exists_reduce_eq fuel (source.resolve session.book.names) mode with
            ⟨reporter, hreduce⟩
          simp only [Except.map]
          rw [hreduce, alike.reduced_eq]
          cases session.reduced fuel (source.resolve session.book.names) mode with
          | none => exact ⟨session.reporter, rfl⟩
          | some result =>
            cases result with
            | error failure => exact ⟨_, rfl⟩
            | ok terms => exact ⟨_, rfl⟩

theorem perform_cases (good : session.book.Good) {call : Call} {after : Session}
    {outcome : Except Failure (List Term)} (h : session.perform fuel call = some (after, outcome))
    : (∃ failure reporter, session.answer fuel call = some (.error failure) ∧
        after = { session with reporter } ∧ outcome = .error failure) ∨
      (∃ book terms reporter, session.answer fuel call = some (.ok (book, terms)) ∧
        after = { session with book, results := terms, reporter } ∧ outcome = .ok terms) := by
  rcases exists_perform_eq good fuel call with ⟨reporter, hperform⟩
  rw [hperform] at h
  rcases Option.map_eq_some_iff.1 h with ⟨answer, hanswer, hsettle⟩
  cases answer with
  | error failure =>
    simp only [settle, Prod.mk.injEq] at hsettle
    exact Or.inl ⟨failure, reporter, hanswer, hsettle.1.symm, hsettle.2.symm⟩
  | ok accepted =>
    rcases accepted with ⟨book, terms⟩
    simp only [settle, Prod.mk.injEq] at hsettle
    exact Or.inr ⟨book, terms, reporter, hanswer, hsettle.1.symm, hsettle.2.symm⟩

theorem perform_of_request_reduce (good : session.book.Good) {call : Call} {term : Term} {mode : Mode}
    (h : call.request session.book = .ok (.reduce term mode)) (fuel : Nat)
    : (session.perform fuel call).map Prod.snd = session.reduced fuel term mode := by
  rcases exists_perform_eq good fuel call with ⟨reporter, hperform⟩
  rw [hperform]
  simp only [answer, h]
  cases session.reduced fuel term mode with
  | none => rfl
  | some result =>
    cases result with
    | error failure => rfl
    | ok terms => rfl

theorem answer_ok (good : session.book.Good) {call : Call} {book : Book} {terms : List Term}
    (h : session.answer fuel call = some (.ok (book, terms)))
    : book.Good ∧ (call.isDefinition = false → book = session.book) := by
  unfold answer at h
  split at h
  · simp at h
  · next definition hrequest =>
    rcases Call.evaluate_of_request_define hrequest with ⟨line, number, mode, hcall, hparse⟩
    cases haccept : session.book.accept definition with
    | error failure => simp [haccept, Except.map] at h
    | ok accepted =>
      simp only [haccept, Except.map, Option.some.injEq, Except.ok.injEq, Prod.mk.injEq] at h
      rw [← h.1]
      constructor
      · exact good.accept (Source.refs_of_parseStatement_definition hparse) haccept
      · intro hnot
        simp [hcall, Call.isDefinition, hparse] at hnot
  · next term mode hrequest =>
    rcases Option.map_eq_some_iff.1 h with ⟨result, _, hresult⟩
    cases result with
    | error failure => simp [Except.map] at hresult
    | ok given =>
      simp only [Except.map, Except.ok.injEq, Prod.mk.injEq] at hresult
      rw [← hresult.1]
      exact ⟨good, fun _ => rfl⟩

theorem reduced_mono {term : Term} {mode : Mode} {result : Except Failure (List Term)} {more : Nat}
    (h : session.reduced fuel term mode = some result) (hle : fuel ≤ more)
    : session.reduced more term mode = some result := by
  have hfuel : fuelFor session.limit fuel ≤ fuelFor session.limit more := by
    unfold fuelFor
    split
    · exact Nat.le_refl _
    · exact hle
  rw [reduced_eq] at h ⊢
  cases mode with
  | run =>
    rcases Option.map_eq_some_iff.1 h with ⟨reduction, hreduction, hresult⟩
    exact Option.map_eq_some_iff.2 ⟨reduction, reduce_mono hreduction hfuel, hresult⟩
  | stepped =>
    rcases Option.map_eq_some_iff.1 h with ⟨reduction, hreduction, hresult⟩
    exact Option.map_eq_some_iff.2 ⟨reduction, reduceStepped_mono hreduction hfuel, hresult⟩
  | unknown name => exact h

theorem answer_mono {call : Call} {answer : Except Failure (Book × List Term)} {more : Nat}
    (h : session.answer fuel call = some answer) (hle : fuel ≤ more)
    : session.answer more call = some answer := by
  unfold Session.answer at h ⊢
  split
  · next hrequest => simpa [hrequest] using h
  · next hrequest => simpa [hrequest] using h
  · next hrequest =>
    simp only [hrequest] at h
    rcases Option.map_eq_some_iff.1 h with ⟨result, hresult, heq⟩
    exact Option.map_eq_some_iff.2 ⟨result, reduced_mono hresult hle, heq⟩

theorem reduced_ok {term : Term} {mode : Mode} {terms : List Term}
    (h : session.reduced fuel term mode = some (.ok terms))
    : ∀ other ∈ terms, ∃ count, term.after session.book session.form count = .ok (some other) := by
  rw [reduced_eq] at h
  intro other hmem
  cases mode with
  | run =>
    rcases Option.map_eq_some_iff.1 h with ⟨reduction, hreduction, hresult⟩
    cases hok : reduction.result with
    | error failure => simp [hok, Except.map] at hresult
    | ok final =>
      simp only [hok, Except.map, Except.ok.injEq] at hresult
      rw [← hresult, List.mem_singleton] at hmem
      rcases reduce_ok hreduction hok with ⟨count, _, hlast, _⟩
      rw [hmem]
      exact ⟨count, hlast⟩
  | stepped =>
    rcases Option.map_eq_some_iff.1 h with ⟨reduction, hreduction, hresult⟩
    rcases List.mem_iff_getElem?.1 hmem with ⟨count, hget⟩
    refine ⟨count, ?_⟩
    rw [(reduceStepped_ok hreduction hresult).2 count, hget]
  | unknown name => simp at h

theorem reduced_error {term : Term} {mode : Mode} {failure : Failure}
    (h : session.reduced fuel term mode = some (.error failure)) (hmode : mode = .run ∨ mode = .stepped)
    : (∃ count fault, term.after session.book session.form count = .error fault ∧
        failure = .fault fault) ∨
      (∃ bound made, session.limit = some bound ∧ bound.exceeded? made = some failure) := by
  rw [reduced_eq] at h
  cases mode with
  | run =>
    rcases Option.map_eq_some_iff.1 h with ⟨reduction, hreduction, hresult⟩
    cases hend : reduction.result with
    | ok final => simp [hend, Except.map] at hresult
    | error cause =>
      simp only [hend, Except.map, Except.error.injEq] at hresult
      rw [hresult] at hend
      rcases reduce_error hreduction hend (by simp) with hfault | ⟨bound, hbound, hexceeded, _⟩
      · exact Or.inl hfault
      · exact Or.inr ⟨bound, _, hbound, hexceeded⟩
  | stepped =>
    rcases Option.map_eq_some_iff.1 h with ⟨reduction, hreduction, hresult⟩
    rcases reduceStepped_error hreduction hresult (by simp) with hfault | ⟨bound, hbound, hexceeded, _⟩
    · exact Or.inl hfault
    · exact Or.inr ⟨bound, _, hbound, hexceeded⟩
  | unknown name => simp at hmode

end Session

end NamedLambda
