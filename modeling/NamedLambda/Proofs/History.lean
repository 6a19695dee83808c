import Mathlib
import NamedLambda.Proofs.Calls
import NamedLambda.Proofs.Loading
import NamedLambda.Proofs.Opening

/-!
This module contains runs of calls on a loaded session. Every book on the way is good, every reduction
stays among good terms, and all that a run leaves in the book are the definitions that it accepted.
-/

namespace NamedLambda

structure Entry where
  call : Call
  outcome : Except Failure (List Term)

/--
Calls that are made one after another. Each of them ends, with whatever fuel that takes.
-/
inductive Run : Session → List Entry → Session → Prop where
  | nil (session : Session) : Run session [] session
  | cons {session next final : Session} {fuel : Nat} {call : Call}
    {outcome : Except Failure (List Term)} {entries : List Entry}
    (h : session.perform fuel call = some (next, outcome)) (rest : Run next entries final)
    : Run session ({ call, outcome } :: entries) final

def Entry.isAccepted (entry : Entry) : Bool :=
  entry.call.isDefinition && entry.outcome.isOk

/--
The first list is what is left of the second one after some entries that are no accepted definitions have
been deleted.
-/
inductive Thinned : List Entry → List Entry → Prop where
  | nil : Thinned [] []
  | keep (entry : Entry) {kept entries : List Entry} (h : Thinned kept entries)
    : Thinned (entry :: kept) (entry :: entries)
  | drop (entry : Entry) {kept entries : List Entry} (hnot : entry.isAccepted = false)
    (h : Thinned kept entries)
    : Thinned kept (entry :: entries)

theorem thinned_filter (entries : List Entry) : Thinned (entries.filter Entry.isAccepted) entries := by
  induction entries with
  | nil => exact .nil
  | cons entry rest ih =>
    cases haccepted : entry.isAccepted with
    | true =>
      rw [List.filter_cons_of_pos haccepted]
      exact .keep entry ih
    | false =>
      rw [List.filter_cons_of_neg (by simp [haccepted])]
      exact .drop entry haccepted ih

namespace Session

variable {session other after : Session} {fuel : Nat} {call : Call}
  {outcome : Except Failure (List Term)}

theorem perform_good (good : session.book.Good)
    (h : session.perform fuel call = some (after, outcome)) : after.book.Good := by
  rcases perform_cases good h with
    ⟨failure, reporter, _, hafter, _⟩ | ⟨book, terms, reporter, hanswer, hafter, _⟩
  · rw [hafter]
    exact good
  · rw [hafter]
    exact (answer_ok good hanswer).1

theorem perform_error (good : session.book.Good) {failure : Failure}
    (h : session.perform fuel call = some (after, .error failure))
    : after.book = session.book ∧ after.results = session.results := by
  rcases perform_cases good h with
    ⟨cause, reporter, _, hafter, _⟩ | ⟨book, terms, reporter, _, _, houtcome⟩
  · rw [hafter]
    exact ⟨rfl, rfl⟩
  · simp at houtcome

theorem alike_perform (good : session.book.Good)
    (h : session.perform fuel call = some (after, outcome))
    (hnot : Entry.isAccepted { call, outcome } = false) : Alike session after := by
  rcases perform_cases good h with
    ⟨failure, reporter, _, hafter, _⟩ | ⟨book, terms, reporter, hanswer, hafter, houtcome⟩
  · rw [hafter]
    exact ⟨rfl, rfl, rfl, rfl⟩
  · have hcall : call.isDefinition = false := by
      simpa [Entry.isAccepted, houtcome, Except.isOk, Except.toBool] using hnot
    rw [hafter]
    exact ⟨(answer_ok good hanswer).2 hcall, rfl, rfl, rfl⟩

theorem Alike.settle (alike : Alike session other) (reporter reporter' : Reporter)
    (answer : Except Failure (Book × List Term))
    : Alike (session.settle reporter answer).1 (other.settle reporter' answer).1 ∧
      (other.settle reporter' answer).2 = (session.settle reporter answer).2 := by
  cases answer with
  | error failure => exact ⟨⟨alike.book_eq, alike.form_eq, alike.order_eq, alike.limit_eq⟩, rfl⟩
  | ok accepted => exact ⟨⟨rfl, alike.form_eq, alike.order_eq, alike.limit_eq⟩, rfl⟩

theorem Alike.exists_perform (alike : Alike session other) (good : session.book.Good)
    (h : session.perform fuel call = some (after, outcome))
    : ∃ after', other.perform fuel call = some (after', outcome) ∧ Alike after after' := by
  rcases exists_perform_eq good fuel call with ⟨reporter, hperform⟩
  rcases exists_perform_eq (alike.good good) fuel call with ⟨reporter', hperform'⟩
  rw [hperform] at h
  rcases Option.map_eq_some_iff.1 h with ⟨answer, hanswer, hsettle⟩
  rcases alike.settle reporter reporter' answer with ⟨halike, houtcome⟩
  rw [hsettle] at halike houtcome
  rw [hperform', alike.answer_eq, hanswer]
  exact ⟨_, congrArg some (Prod.ext rfl houtcome), halike⟩

theorem Alike.perform_unique (alike : Alike session other) (good : session.book.Good)
    (h : session.perform fuel call = some (after, outcome)) {fuel' : Nat} {after' : Session}
    {outcome' : Except Failure (List Term)} (h' : other.perform fuel' call = some (after', outcome'))
    : outcome' = outcome ∧ Alike after after' := by
  rcases exists_perform_eq good fuel call with ⟨reporter, hperform⟩
  rcases exists_perform_eq (alike.good good) fuel' call with ⟨reporter', hperform'⟩
  rw [hperform] at h
  rw [hperform', alike.answer_eq] at h'
  rcases Option.map_eq_some_iff.1 h with ⟨answer, hanswer, hsettle⟩
  rcases Option.map_eq_some_iff.1 h' with ⟨answer', hanswer', hsettle'⟩
  -- Both answers stay as they are with the greater fuel.
  have hmax := answer_mono hanswer (Nat.le_max_left fuel fuel')
  have hmax' := answer_mono hanswer' (Nat.le_max_right fuel fuel')
  rw [hmax, Option.some.injEq] at hmax'
  rcases alike.settle reporter reporter' answer with ⟨halike, houtcome⟩
  rw [← hmax'] at hsettle'
  rw [hsettle, hsettle'] at halike houtcome
  exact ⟨houtcome, halike⟩

end Session

namespace Run

variable {session other final : Session} {entries kept : List Entry}

theorem good (run : Run session entries final) (good : session.book.Good) : final.book.Good := by
  induction run with
  | nil session => exact good
  | cons h _ ih =>
    apply ih
    exact Session.perform_good good h

-- An entry that is dropped leaves a session that answers like the one before it.
theorem exists_thinned (run : Run session entries final) (good : session.book.Good)
    (alike : session.Alike other) (h : Thinned kept entries)
    : ∃ last, Run other kept last ∧ final.Alike last := by
  induction run generalizing other kept with
  | nil session =>
    cases h with
    | nil => exact ⟨other, .nil other, alike⟩
  | cons hperform _ ih =>
    have hnext := Session.perform_good good hperform
    cases h with
    | keep _ h =>
      rcases alike.exists_perform good hperform with ⟨next, hother, hafter⟩
      rcases ih hnext hafter h with ⟨last, hrun, hlast⟩
      exact ⟨last, .cons hother hrun, hlast⟩
    | drop _ hnot h =>
      have hafter := Session.alike_perform good hperform hnot
      exact ih hnext (hafter.symm.trans alike) h

theorem unique (run : Run session entries final) (good : session.book.Good)
    (alike : session.Alike other) {last : Session} (run' : Run other kept last)
    (hcalls : kept.map Entry.call = entries.map Entry.call)
    : kept = entries ∧ final.Alike last := by
  induction run generalizing other kept with
  | nil session =>
    cases run' with
    | nil _ => exact ⟨rfl, alike⟩
    | cons h rest => simp at hcalls
  | cons hperform _ ih =>
    cases run' with
    | nil _ => simp at hcalls
    | cons hother rest =>
      simp only [List.map_cons, List.cons.injEq] at hcalls
      rw [hcalls.1] at hother ⊢
      rcases alike.perform_unique good hperform hother with ⟨houtcome, hafter⟩
      rcases ih (Session.perform_good good hperform) hafter rest hcalls.2 with ⟨heq, hlast⟩
      rw [houtcome, heq]
      exact ⟨rfl, hlast⟩

end Run

section

variable {files : String → FileEntry} {reporter : Reporter} {path : Option String}
  {form order : String} {limit : Option Limit} {session loaded final : Session} {requireMain : Bool}
  {entries : List Entry}

theorem Session.good_of_create
    (hcreate : Session.create files reporter path form order limit = .ok session)
    (hload : session.load requireMain = (loaded, .ok ())) : loaded.book.Good := by
  rcases exists_code_of_create hcreate with ⟨code, hbook⟩
  exact good_of_load hbook hload

/--
After any calls on a loaded session its book is good. A reduction that the next call begins goes through
good terms for as long as it lasts, gives terms from among them, and fails for its limit only.
-/
theorem good_of_load_of_run
    (hcreate : Session.create files reporter path form order limit = .ok session)
    (hload : session.load requireMain = (loaded, .ok ())) (run : Run loaded entries final)
    : final.book.Good ∧
      ∀ call term mode, call.request final.book = .ok (.reduce term mode) →
        (∀ fuel, (final.perform fuel call).map Prod.snd = final.reduced fuel term mode) ∧
        (∀ count, ∃ other?, term.after final.book final.form count = .ok other? ∧
          ∀ other ∈ other?, other.GoodIn final.book.names) ∧
        (∀ fuel terms, final.reduced fuel term mode = some (.ok terms) →
          ∀ other ∈ terms, ∃ count,
            term.after final.book final.form count = .ok (some other)) ∧
        (∀ fuel failure, final.reduced fuel term mode = some (.error failure) →
          (mode = .run ∨ mode = .stepped) →
          (∃ count, final.limit = some (.steps count) ∧ failure = .stepLimit count) ∨
          (final.limit = some .blank ∧ failure = .fault .blankLimit)) := by
  have good := run.good (Session.good_of_create hcreate hload)
  refine ⟨good, ?_⟩
  intro call term mode hrequest
  have hterm := Call.goodIn_of_request_reduce good hrequest
  refine ⟨Session.perform_of_request_reduce good hrequest, ?_, ?_, ?_⟩
  · intro count
    rcases Term.exists_after good count hterm with ⟨other?, hother⟩
    refine ⟨other?, hother, ?_⟩
    intro other hmem
    rw [Option.mem_def] at hmem
    rw [hmem] at hother
    exact Term.after_goodIn good hterm hother
  · intro fuel terms hreduced
    exact Session.reduced_ok hreduced
  · intro fuel failure hreduced hmode
    rcases Session.reduced_error hreduced hmode with
      ⟨count, fault, hfault, _⟩ | ⟨bound, made, hlimit, hexceeded⟩
    · rcases Term.exists_after good count hterm with ⟨other?, hother⟩
      rw [hother] at hfault
      simp at hfault
    · rw [hlimit]
      rcases Limit.failure_of_exceeded? hexceeded with ⟨count, hbound, hfailure⟩ | ⟨hbound, hfailure⟩
      · exact Or.inl ⟨count, congrArg some hbound, hfailure⟩
      · exact Or.inr ⟨congrArg some hbound, hfailure⟩

theorem good_of_load_of_run_selfApplication
    : let files (path : String) : FileEntry :=
        if path = "b" then .file "I = λx x".toUTF8.toList else .missing
      let session : Session :=
        { path := "b", form := .normal, order := .normal, limit := none
          book := Book.ofList [{ name := "I", body := .lam (some "x") (.var "x") }]
          results := []
          reporter := (Reporter.new false .plain).register "b" }
      let entries : List Entry :=
        [{ call := .evaluate "E = λx (x y)" none .run, outcome := .error (.unbound "y") },
          { call := .evaluate "D = λx (x x)" none .run, outcome := .ok [] }]
      let term : Term := .app (.ref "D") (.ref "D")
      Session.create files (Reporter.new false .plain) (some "b") "nf" "normal" none = .ok session ∧
        session.load false = (session, .ok ()) ∧
        ∃ final, Run session entries final ∧ final.book.Good ∧
          ∀ count, ∃ other?, term.after final.book final.form count = .ok other? ∧
            ∀ other ∈ other?, other.GoodIn final.book.names := by
  intro files session entries term
  have hcreate : Session.create files (Reporter.new false .plain) (some "b") "nf" "normal" none =
      .ok session := by cbv
  have hload : session.load false = (session, .ok ()) := by cbv
  let middle : Session :=
    { session with reporter := session.reporter.begin "b" (some "E = λx (x y)") none }
  let final : Session :=
    { session with
      book := session.book.define
        { name := "D", body := .lam (some "x") (.app (.var "x") (.var "x")) }
      reporter := session.reporter.register "b" }
  have hfirst : session.perform 0 (.evaluate "E = λx (x y)" none .run) =
      some (middle, .error (.unbound "y")) := by cbv
  have hsecond : middle.perform 0 (.evaluate "D = λx (x x)" none .run) =
      some (final, .ok []) := by cbv
  have run : Run session entries final := .cons hfirst (.cons hsecond (.nil final))
  have hrequest : (Call.evaluate "(D D)" none .run).request final.book =
      .ok (.reduce term .run) := by cbv
  have hsafe := good_of_load_of_run hcreate hload run
  exact ⟨hcreate, hload, final, run, hsafe.1, (hsafe.2 _ term .run hrequest).2.1⟩

/--
A call that fails, and one that defines nothing, leaves the book as it was. Hence any such calls can be
deleted from a run without a change to the outcomes of the others or to the book.
-/
theorem run_thinned_of_load
    (hcreate : Session.create files reporter path form order limit = .ok session)
    (hload : session.load requireMain = (loaded, .ok ())) (run : Run loaded entries final)
    : (∀ fuel call after outcome, final.perform fuel call = some (after, outcome) →
        (∀ failure, outcome = .error failure →
          after.book = final.book ∧ after.results = final.results) ∧
        (call.isDefinition = false → after.book = final.book)) ∧
      (∃ last, Run loaded (entries.filter Entry.isAccepted) last ∧ last.book = final.book) ∧
      (∀ kept, Thinned kept entries →
        (∃ last, Run loaded kept last ∧ last.book = final.book) ∧
        ∀ others last, Run loaded others last → others.map Entry.call = kept.map Entry.call →
          others = kept ∧ last.book = final.book) := by
  have hloaded := Session.good_of_create hcreate hload
  have good := run.good hloaded
  have hkept : ∀ kept, Thinned kept entries → ∃ last, Run loaded kept last ∧ final.Alike last := by
    intro kept hthinned
    exact run.exists_thinned hloaded (Session.Alike.refl loaded) hthinned
  refine ⟨?_, ?_, ?_⟩
  · intro fuel call after outcome hperform
    constructor
    · intro failure hfailure
      rw [hfailure] at hperform
      exact Session.perform_error good hperform
    · intro hnot
      apply Session.Alike.book_eq
      apply Session.alike_perform good hperform
      simp [Entry.isAccepted, hnot]
  · rcases hkept _ (thinned_filter entries) with ⟨last, hrun, hlast⟩
    exact ⟨last, hrun, hlast.book_eq⟩
  · intro kept hthinned
    rcases hkept kept hthinned with ⟨last, hrun, hlast⟩
    refine ⟨⟨last, hrun, hlast.book_eq⟩, ?_⟩
    intro others last' hothers hcalls
    rcases hrun.unique hloaded (Session.Alike.refl loaded) hothers hcalls with ⟨heq, hlast'⟩
    exact ⟨heq, hlast'.book_eq.trans hlast.book_eq⟩

theorem run_thinned_of_load_failedRedefinition
    : let files (path : String) : FileEntry :=
        if path = "b" then .file "I = λx x".toUTF8.toList else .missing
      let session : Session :=
        { path := "b", form := .normal, order := .normal, limit := none
          book := Book.ofList [{ name := "I", body := .lam (some "x") (.var "x") }]
          results := []
          reporter := (Reporter.new false .plain).register "b" }
      let rejected : Entry :=
        { call := .evaluate "I = λx y" none .run, outcome := .error (.unbound "y") }
      let accepted : Entry := { call := .evaluate "K = λx λ* x" none .run, outcome := .ok [] }
      let failed : Entry :=
        { call := .run .stepped, outcome := .error (.fault (.missingKey "main")) }
      Session.create files (Reporter.new false .plain) (some "b") "nf" "normal" none = .ok session ∧
        session.load false = (session, .ok ()) ∧
        ∃ final, Run session [rejected, accepted, failed] final ∧
          ∃ last, Run session [accepted] last ∧ last.book = final.book := by
  intro files session rejected accepted failed
  have hcreate : Session.create files (Reporter.new false .plain) (some "b") "nf" "normal" none =
      .ok session := by cbv
  have hload : session.load false = (session, .ok ()) := by cbv
  let middle : Session :=
    { session with reporter := session.reporter.begin "b" (some "I = λx y") none }
  let final : Session :=
    { session with
      book := session.book.define
        { name := "K", body := .lam (some "x") (.lam none (.var "x")) }
      reporter := session.reporter.register "b" }
  have hrejected : session.perform 0 rejected.call = some (middle, rejected.outcome) := by cbv
  have haccepted : middle.perform 0 accepted.call = some (final, accepted.outcome) := by cbv
  have hfailed : final.perform 0 failed.call = some (final, failed.outcome) := by cbv
  have run : Run session [rejected, accepted, failed] final :=
    .cons hrejected (.cons haccepted (.cons hfailed (.nil final)))
  have hthinned : Thinned [accepted] [rejected, accepted, failed] :=
    .drop rejected (by cbv) (.keep accepted (.drop failed (by cbv) .nil))
  exact ⟨hcreate, hload, final, run, ((run_thinned_of_load hcreate hload run).2.2 _ hthinned).1⟩

end

end NamedLambda
