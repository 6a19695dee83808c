import NamedLambda.Proofs.Mistakes
import NamedLambda.Proofs.SourceText

/-!
This module contains extensions of books by definitions of new names. What could be reduced before is
reduced in the same way after it, since a good term only ever comes to names that the old book defines.
Hence a term can be evaluated or be given the name `main` and run, with the same outcome.
-/

namespace NamedLambda

open Source (parseStatement)

namespace Book

/--
The other book gives every name of the book the same body.
-/
def ExtendedBy (book other : Book) : Prop :=
  ∀ name ∈ book.names, other.find? name = book.find? name

variable {book other : Book}

theorem ExtendedBy.unfold_eq (ext : book.ExtendedBy other) {name : String} (h : name ∈ book.names)
    : other.unfold name = book.unfold name := by
  unfold unfold
  rw [ext name h]

theorem ExtendedBy.mem_names (ext : book.ExtendedBy other) {name : String} (h : name ∈ book.names)
    : name ∈ other.names := by
  apply Decidable.byContradiction
  intro hnot
  rw [← find?_eq_none_iff, ext name h, find?_eq_none_iff] at hnot
  exact hnot h

theorem extendedBy_define {definition : Definition} (h : definition.name ∉ book.names)
    : book.ExtendedBy (book.define definition) := by
  intro name hname
  rw [find?_define, if_neg]
  intro heq
  apply h
  rw [heq]
  exact hname

end Book

section

variable {book other : Book} (ext : book.ExtendedBy other)
include ext

theorem Term.step_eq_of_extendedBy {term : Term} (hrefs : ∀ name ∈ term.refs, name ∈ book.names)
    : term.step other = term.step book := by
  fun_induction Term.step book term with
  | case1 binder body ih =>
    rw [step, ih hrefs]
  | case2 name => rfl
  | case3 name =>
    rw [step, ext.unfold_eq]
    apply hrefs
    simp
  | case4 body argument => rfl
  | case5 name body argument => rfl
  | case6 name argument => rfl
  | case7 name argument =>
    rw [step, ext.unfold_eq]
    apply hrefs
    simp
  | case8 function first argument ihf iha =>
    rw [refs_app, List.forall_mem_append] at hrefs
    rw [step, ihf hrefs.1, iha hrefs.2]

-- A good term is reduced to a good term, which again has no reference to a name of the extension.
theorem reduceStepped_eq_of_extendedBy {form : Form} {order : Order} {limit : Option Limit}
    {steps fuel : Nat} {term : Term} (good : book.Good) (h : term.GoodIn book.names)
    : reduceStepped other form order limit steps fuel term =
      reduceStepped book form order limit steps fuel term := by
  induction fuel generalizing steps term with
  | zero => rfl
  | succ fuel ih =>
    cases hreached : form.reached term with
    | true => simp [reduceStepped, hreached]
    | false =>
      rw [reduceStepped_succ hreached, reduceStepped_succ hreached,
        Term.step_eq_of_extendedBy ext h.refs_mem]
      cases hstep : term.step book with
      | error fault => rfl
      | ok progress =>
        simp only
        split
        · next hreduced =>
          rw [ih]
          apply ((Term.contracts_of_step hstep).1 hreduced).goodIn good h
        · rfl

theorem Term.resolve_eq_of_extendedBy {term : Term} (hcheck : (term.resolve book.names).check = .ok ())
    : term.resolve other.names = term.resolve book.names := by
  rw [Term.check_eq_ok_iff] at hcheck
  rw [← resolve_eq_self hcheck other.names]
  symm
  apply resolve_resolve_of_subset
  intro name hname
  exact ext.mem_names hname

theorem Call.request_eq_of_extendedBy {call : Call} {term : Term} {mode : Mode}
    (h : call.request book = .ok (.reduce term mode)) : call.request other = .ok (.reduce term mode) := by
  rcases run_or_evaluate_of_request_reduce h with
    ⟨hcall, hfind⟩ | ⟨line, number, source, hcall, hparse, hresolve, hcheck⟩
  · have hmem : "main" ∈ book.names := List.mem_map_of_mem (Book.mem_definitions_of_find? hfind)
    rw [hcall, request, ext "main" hmem, hfind]
  · rw [← hresolve] at hcheck ⊢
    simp only [hcall, request, hparse]
    rw [Term.resolve_eq_of_extendedBy ext hcheck, hcheck]
    rfl

end

namespace Session

/--
Sessions with the same choices, where the book of the other one extends that of the session.
-/
structure ExtendedBy (session other : Session) : Prop where
  book : session.book.ExtendedBy other.book
  form_eq : other.form = session.form
  order_eq : other.order = session.order
  limit_eq : other.limit = session.limit

variable {session other : Session} {fuel : Nat}

theorem ExtendedBy.reduced_eq (ext : session.ExtendedBy other) (good : session.book.Good) {term : Term}
    (h : term.GoodIn session.book.names) (fuel : Nat) (mode : Mode)
    : other.reduced fuel term mode = session.reduced fuel term mode := by
  rw [Session.reduced_eq, Session.reduced_eq, ext.form_eq, ext.order_eq, ext.limit_eq]
  cases mode with
  | run => simp only [reduce_eq, reduceStepped_eq_of_extendedBy ext.book good h]
  | stepped => simp only [reduceStepped_eq_of_extendedBy ext.book good h]
  | unknown name => rfl

theorem ExtendedBy.perform_eq (ext : session.ExtendedBy other) (good : session.book.Good)
    (good' : other.book.Good) {call : Call} {term : Term} {mode : Mode}
    (h : call.request session.book = .ok (.reduce term mode)) (fuel : Nat)
    : (other.perform fuel call).map Prod.snd = (session.perform fuel call).map Prod.snd := by
  rw [perform_of_request_reduce good' (Call.request_eq_of_extendedBy ext.book h),
    perform_of_request_reduce good h]
  apply ext.reduced_eq good
  exact Call.goodIn_of_request_reduce good h

end Session

/-!
Definitions of new names.
-/

namespace Book

variable {book : Book} {definition : Definition}

-- The other bodies are closed, so that only the new one can have an unbound variable.
theorem Good.check_resolve_define (good : book.Good) (hnew : definition.name ∉ book.names)
    : (book.define definition).resolve.check =
      (definition.body.resolve (book.define definition).names).check := by
  have hclosed : book.freeVars = [] := by
    rw [← Failure.ofUnbound_eq_ok_iff, ← check_eq]
    exact good.check_eq_ok
  have hput : ∀ body, (book.define { definition with body }).definitions =
      book.definitions ++ [{ definition with body }] := by
    intro body
    apply put_eq_append
    exact hnew
  rw [good.resolve_define, check_eq, Term.check_eq, freeVars, hput, List.flatMap_append]
  unfold freeVars at hclosed
  rw [hclosed, List.nil_append, List.flatMap_singleton]

theorem Good.accept_eq_of_new (good : book.Good) (hnew : definition.name ∉ book.names)
    : book.accept definition =
      (definition.body.resolve (book.define definition).names).check.map (fun _ =>
        book.define
          { definition with body := definition.body.resolve (book.define definition).names }) := by
  simp only [Book.accept]
  rw [good.check_resolve_define hnew, good.resolve_define]

theorem Good.accept_new (good : book.Good) (hnew : definition.name ∉ book.names) {result : Book}
    (h : book.accept definition = .ok result)
    : book.ExtendedBy result ∧
      ∃ body, result.definitions = book.definitions ++ [{ name := definition.name, body }] := by
  rcases (accept_eq_ok_iff book definition result).1 h with ⟨_, hresult⟩
  rw [← hresult, good.resolve_define]
  constructor
  · apply extendedBy_define
    exact hnew
  · refine ⟨definition.body.resolve (book.define definition).names, ?_⟩
    apply put_eq_append
    exact hnew

end Book

namespace Session

variable {session after : Session} {fuel : Nat} {line : String}

theorem extendedBy_of_evaluate (good : session.book.Good) {definition : Definition}
    (hline : parseStatement line = .ok (.definition definition))
    (hnew : definition.name ∉ session.book.names) {number : Option Int} {mode : Mode}
    {terms : List Term} (h : session.evaluate fuel line number mode = some (after, .ok terms))
    : session.ExtendedBy after ∧
      ∃ body, after.book.definitions =
        session.book.definitions ++ [{ name := definition.name, body }] := by
  have hperform : session.perform fuel (.evaluate line number mode) = some (after, .ok terms) := h
  rcases perform_cases good hperform with
    ⟨failure, reporter, _, _, houtcome⟩ | ⟨book, given, reporter, hanswer, hafter, _⟩
  · simp at houtcome
  · have haccept := good.accept_new hnew (accept_of_answer hline hanswer)
    rw [hafter]
    exact ⟨⟨haccept.1, rfl, rfl, rfl⟩, haccept.2⟩

theorem evaluate_of_accept (good : session.book.Good) {definition : Definition}
    (hline : parseStatement line = .ok (.definition definition)) {book : Book}
    (haccept : session.book.accept definition = .ok book) (fuel : Nat) (number : Option Int)
    (mode : Mode)
    : ∃ reporter, session.evaluate fuel line number mode =
        some ({ session with book, results := [], reporter }, .ok []) := by
  rcases exists_perform_eq good fuel (.evaluate line number mode) with ⟨reporter, hperform⟩
  refine ⟨reporter, ?_⟩
  simp only [answer, Call.request, hline, haccept, Except.map] at hperform
  exact hperform

theorem evaluate_of_accept_error (good : session.book.Good) {definition : Definition}
    (hline : parseStatement line = .ok (.definition definition)) {failure : Failure}
    (haccept : session.book.accept definition = .error failure) (fuel : Nat) (number : Option Int)
    (mode : Mode)
    : ∃ after, session.evaluate fuel line number mode = some (after, .error failure) := by
  rcases exists_perform_eq good fuel (.evaluate line number mode) with ⟨reporter, hperform⟩
  refine ⟨{ session with reporter }, ?_⟩
  simp only [answer, Call.request, hline, haccept, Except.map] at hperform
  exact hperform

theorem reduced_ne_unbound (session : Session) (fuel : Nat) (term : Term) (mode : Mode) (name : String)
    : session.reduced fuel term mode ≠ some (.error (.unbound name)) := by
  intro h
  have hmode : mode = .run ∨ mode = .stepped := by
    cases mode with
    | run => exact Or.inl rfl
    | stepped => exact Or.inr rfl
    | unknown given => simp [reduced_eq] at h
  rcases reduced_error h hmode with ⟨_, _, _, hfault⟩ | ⟨bound, made, _, hexceeded⟩
  · simp at hfault
  · rcases Limit.failure_of_exceeded? hexceeded with ⟨_, _, hfailure⟩ | ⟨_, hfailure⟩
    · simp at hfailure
    · simp at hfailure

/-!
A term line is turned down for the variable that is unbound in it, and is reduced if there is none.
-/

variable {source : Term} {number : Option Int} {mode : Mode} {outcome : Except Failure (List Term)}

theorem evaluate_term_cases (good : session.book.Good)
    (hline : parseStatement line = .ok (.term source))
    (h : session.evaluate fuel line number mode = some (after, outcome))
    : (∃ name, (source.resolve session.book.names).check = .error (.unbound name) ∧
        outcome = .error (.unbound name)) ∨
      ((source.resolve session.book.names).check = .ok () ∧
        session.reduced fuel (source.resolve session.book.names) mode = some outcome) := by
  have hperform : session.perform fuel (.evaluate line number mode) = some (after, outcome) := h
  cases hcheck : (source.resolve session.book.names).check with
  | error failure =>
    rcases Term.check_error hcheck with ⟨name, hname⟩
    rw [hname] at hcheck ⊢
    rcases exists_perform_eq good fuel (.evaluate line number mode) with ⟨reporter, hanswer⟩
    simp only [answer, Call.request, hline, hcheck, Except.map, settle, Option.map_some] at hanswer
    rw [hperform, Option.some.injEq, Prod.mk.injEq] at hanswer
    exact Or.inl ⟨name, rfl, hanswer.2⟩
  | ok value =>
    have hrequest : (Call.evaluate line number mode).request session.book =
        .ok (.reduce (source.resolve session.book.names) mode) := by
      simp [Call.request, hline, hcheck, Except.map]
    have hreduced := perform_of_request_reduce good hrequest fuel
    rw [hperform] at hreduced
    exact Or.inr ⟨rfl, hreduced.symm⟩

/-!
The same term under the name `main`, where that is a new name.
-/

theorem parseStatement_main (hline : parseStatement line = .ok (.term source))
    : parseStatement ("main = " ++ line) = .ok (.definition { name := "main", body := source }) := by
  rcases Source.words_of_parseStatement_term hline with ⟨tree, hwords, hterm⟩
  have hname : Source.IsName "main" := by
    refine ⟨'m', ['a', 'i', 'n'], rfl, rfl, ?_⟩
    simp [Source.Piece.isNameChar, Source.Piece.isNameStart]
  have htext : "main" ++ " = " = "main = " := by decide
  have hparse := Source.parseStatement_of_header hname hwords
  rw [htext, hterm] at hparse
  exact hparse

-- No variable of an accepted line is called `main`, for that would be unbound.
theorem exists_run_main (good : session.book.Good) (hmain : "main" ∉ session.book.names)
    (hline : parseStatement line = .ok (.term source))
    (hcheck : (source.resolve session.book.names).check = .ok ())
    (h : session.reduced fuel (source.resolve session.book.names) mode = some outcome)
    (place : Option Int) (choice : Mode)
    : ∃ defined last,
        session.evaluate fuel ("main = " ++ line) place choice = some (defined, .ok []) ∧
        defined.run fuel mode = some (last, outcome) := by
  let named : Book :=
    session.book.define { name := "main", body := source.resolve session.book.names }
  have hresolve : source.resolve (session.book.define { name := "main", body := source }).names =
      source.resolve session.book.names := by
    apply Term.resolve_eq_of_extendedBy
    · apply Book.extendedBy_define
      exact hmain
    · exact hcheck
  have haccept : session.book.accept { name := "main", body := source } = .ok named := by
    rw [good.accept_eq_of_new hmain, hresolve, hcheck]
    rfl
  have hrefs := Source.refs_of_parseStatement_term hline
  have hnamed : named.Good := good.accept hrefs haccept
  rcases evaluate_of_accept good (parseStatement_main hline) haccept fuel place choice with
    ⟨reporter, hevaluate⟩
  let defined : Session := { session with book := named, results := [], reporter }
  have ext : session.ExtendedBy defined := ⟨Book.extendedBy_define hmain, rfl, rfl, rfl⟩
  have hrequest : (Call.run mode).request defined.book =
      .ok (.reduce (source.resolve session.book.names) mode) := by
    simp [Call.request, defined, named, Book.find?_define]
  have hterm : (source.resolve session.book.names).GoodIn session.book.names := by
    apply Term.goodIn_resolve
    · simp [hrefs]
    · exact hcheck
  have hrun := perform_of_request_reduce hnamed hrequest fuel
  rw [ext.reduced_eq good hterm, h] at hrun
  rcases Option.map_eq_some_iff.1 hrun with ⟨result, hresult, houtcome⟩
  refine ⟨defined, result.1, hevaluate, ?_⟩
  rw [← houtcome]
  exact hresult

theorem exists_unbound_main (good : session.book.Good) (hmain : "main" ∉ session.book.names)
    (hline : parseStatement line = .ok (.term source)) {name : String}
    (hcheck : (source.resolve session.book.names).check = .error (.unbound name))
    (hname : name ≠ "main") (fuel : Nat) (place : Option Int) (choice : Mode)
    : ∃ after,
        session.evaluate fuel ("main = " ++ line) place choice =
          some (after, .error (.unbound name)) := by
  have hnamed : (source.resolve (session.book.define { name := "main", body := source }).names).check =
      .error (.unbound name) := by
    apply Term.check_resolve_of_subset hcheck
    · intro other hother
      rw [Book.mem_names_define]
      exact Or.inr hother
    · rw [Book.mem_names_define, not_or]
      exact ⟨hname, Term.not_mem_of_check_resolve hcheck⟩
  apply evaluate_of_accept_error good (parseStatement_main hline)
  rw [good.accept_eq_of_new hmain, hnamed]
  rfl

end Session

section

variable {files : String → FileEntry} {reporter : Reporter} {path : Option String}
  {form order : String} {limit : Option Limit} {session loaded final after : Session}
  {requireMain : Bool} {entries : List Entry} {line : String} {number : Option Int} {mode : Mode}
  {fuel : Nat}

/--
A definition of a new name is added at the end of the book. Terms that were accepted before it, and
`main` if it was defined, are accepted after it too and are reduced with the same outcome.
-/
theorem new_definition_conservative
    (hcreate : Session.create files reporter path form order limit = .ok session)
    (hload : session.load requireMain = (loaded, .ok ())) (run : Run loaded entries final)
    {definition : Definition} {terms : List Term}
    (hline : parseStatement line = .ok (.definition definition))
    (hnew : definition.name ∉ final.book.names)
    (hdefine : final.evaluate fuel line number mode = some (after, .ok terms))
    : (∃ body, after.book.definitions =
        final.book.definitions ++ [{ name := definition.name, body }]) ∧
      ∀ call term choice, call.request final.book = .ok (.reduce term choice) →
        call.request after.book = .ok (.reduce term choice) ∧
        ∀ fuel, (after.perform fuel call).map Prod.snd = (final.perform fuel call).map Prod.snd := by
  have good := run.good (Session.good_of_create hcreate hload)
  have hperform : final.perform fuel (.evaluate line number mode) = some (after, .ok terms) := hdefine
  have good' := Session.perform_good good hperform
  rcases Session.extendedBy_of_evaluate good hline hnew hdefine with ⟨ext, hdefinitions⟩
  refine ⟨hdefinitions, ?_⟩
  intro call term choice hrequest
  constructor
  · exact Call.request_eq_of_extendedBy ext.book hrequest
  · exact ext.perform_eq good good' hrequest

theorem new_definition_conservative_boundName
    : let files (path : String) : FileEntry :=
        if path = "b" then .file "I = λx x\nmain = λy (I y)".toUTF8.toList else .missing
      let session : Session :=
        { path := "b", form := .normal, order := .normal, limit := some (.steps 1)
          book := Book.ofList
            [{ name := "I", body := .lam (some "x") (.var "x") },
              { name := "main", body := .lam (some "y") (.app (.var "I") (.var "y")) }]
          results := []
          reporter := (Reporter.new false .plain).register "b" }
      let loaded : Session :=
        { session with
          book := Book.ofList
            [{ name := "I", body := .lam (some "x") (.var "x") },
              { name := "main", body := .lam (some "y") (.app (.ref "I") (.var "y")) }] }
      Session.create files (Reporter.new false .plain) (some "b") "nf" "normal" (some (.steps 1)) =
          .ok session ∧
        session.load true = (loaded, .ok ()) ∧
        ∃ after, loaded.evaluate 0 "x = (main I)" none .run = some (after, .ok []) ∧
          (∃ body, after.book.definitions = loaded.book.definitions ++ [{ name := "x", body }]) ∧
          (∀ fuel, (after.perform fuel (.evaluate "λx (I x)" none .stepped)).map Prod.snd =
            (loaded.perform fuel (.evaluate "λx (I x)" none .stepped)).map Prod.snd) ∧
          (∀ fuel, (after.perform fuel (.run .run)).map Prod.snd =
            (loaded.perform fuel (.run .run)).map Prod.snd) := by
  intro files session loaded
  have hcreate : Session.create files (Reporter.new false .plain) (some "b") "nf" "normal"
      (some (.steps 1)) = .ok session := by cbv
  have hload : session.load true = (loaded, .ok ()) := by cbv
  let after : Session :=
    { loaded with
      book := loaded.book.define { name := "x", body := .app (.ref "main") (.ref "I") }
      reporter := session.reporter.register "b" }
  have hline : parseStatement "x = (main I)" =
      .ok (.definition { name := "x", body := .app (.var "main") (.var "I") }) := by cbv
  have hdefine : loaded.evaluate 0 "x = (main I)" none .run = some (after, .ok []) := by cbv
  have hterm : (Call.evaluate "λx (I x)" none .stepped).request loaded.book =
      .ok (.reduce (.lam (some "x") (.app (.ref "I") (.var "x"))) .stepped) := by cbv
  have hmain : (Call.run .run).request loaded.book =
      .ok (.reduce (.lam (some "y") (.app (.ref "I") (.var "y"))) .run) := by cbv
  have hconservative :=
    new_definition_conservative hcreate hload (.nil loaded) hline (by decide) hdefine
  exact ⟨hcreate, hload, after, hdefine, hconservative.1, (hconservative.2 _ _ _ hterm).2,
    (hconservative.2 _ _ _ hmain).2⟩

/--
Where `main` is not defined, a line that holds a term can be evaluated, or be made the definition of
`main` which is then run: both give the same terms, fail at the same limit, and report the same unbound
variable unless that is `main` itself.
-/
theorem evaluate_eq_run_main
    (hcreate : Session.create files reporter path form order limit = .ok session)
    (hload : session.load requireMain = (loaded, .ok ())) (run : Run loaded entries final)
    (hmain : "main" ∉ final.book.names) {source : Term}
    (hline : parseStatement line = .ok (.term source)) {outcome : Except Failure (List Term)}
    (hevaluate : final.evaluate fuel line number mode = some (after, outcome)) (place : Option Int)
    (choice : Mode)
    : (∀ terms, outcome = .ok terms → ∃ defined last,
        final.evaluate fuel ("main = " ++ line) place choice = some (defined, .ok []) ∧
        defined.run fuel mode = some (last, .ok terms)) ∧
      (∀ limit, outcome = .error (.stepLimit limit) → ∃ defined last,
        final.evaluate fuel ("main = " ++ line) place choice = some (defined, .ok []) ∧
        defined.run fuel mode = some (last, .error (.stepLimit limit))) ∧
      (∀ name, outcome = .error (.unbound name) → name ≠ "main" → ∃ refused,
        final.evaluate fuel ("main = " ++ line) place choice =
          some (refused, .error (.unbound name))) := by
  have good := run.good (Session.good_of_create hcreate hload)
  rcases Session.evaluate_term_cases good hline hevaluate with
    ⟨name, hcheck, houtcome⟩ | ⟨hcheck, hreduced⟩
  · subst houtcome
    refine ⟨by simp, by simp, ?_⟩
    intro other hother hne
    rw [Except.error.injEq, Failure.unbound.injEq] at hother
    rw [hother] at hcheck
    exact Session.exists_unbound_main good hmain hline hcheck hne fuel place choice
  · have hrun := Session.exists_run_main good hmain hline hcheck hreduced place choice
    refine ⟨?_, ?_, ?_⟩
    · intro terms hterms
      rw [hterms] at hrun
      exact hrun
    · intro limit hlimit
      rw [hlimit] at hrun
      exact hrun
    · intro name hname
      rw [hname] at hreduced
      exact absurd hreduced (Session.reduced_ne_unbound _ _ _ _ _)

theorem evaluate_eq_run_main_boundMain
    : let files (path : String) : FileEntry :=
        if path = "b" then .file "I = λx x".toUTF8.toList else .missing
      let session : Session :=
        { path := "b", form := .normal, order := .normal, limit := some (.steps 2)
          book := Book.ofList [{ name := "I", body := .lam (some "x") (.var "x") }]
          results := []
          reporter := (Reporter.new false .plain).register "b" }
      Session.create files (Reporter.new false .plain) (some "b") "nf" "normal" (some (.steps 2)) =
          .ok session ∧
        session.load false = (session, .ok ()) ∧
        (∃ defined last,
          session.evaluate 0 "main = (I λmain main)" none .run = some (defined, .ok []) ∧
          defined.run 0 .run = some (last, .ok [.lam (some "main") (.var "main")])) ∧
        (∃ defined last,
          session.evaluate 0 "main = (I I I)" none .run = some (defined, .ok []) ∧
          defined.run 0 .stepped = some (last, .error (.stepLimit 2))) ∧
        ∃ refused,
          session.evaluate 0 "main = (I y main)" none .run =
            some (refused, .error (.unbound "y")) := by
  intro files session
  have hcreate : Session.create files (Reporter.new false .plain) (some "b") "nf" "normal"
      (some (.steps 2)) = .ok session := by cbv
  have hload : session.load false = (session, .ok ()) := by cbv
  have hmain : "main" ∉ session.book.names := by decide
  have hbound : (session.evaluate 0 "(I λmain main)" none .run).map Prod.snd =
      some (.ok [.lam (some "main") (.var "main")]) := by cbv
  have hlimit : (session.evaluate 0 "(I I I)" none .stepped).map Prod.snd =
      some (.error (.stepLimit 2)) := by cbv
  have hunbound : (session.evaluate 0 "(I y main)" none .run).map Prod.snd =
      some (.error (.unbound "y")) := by cbv
  have hlineBound : parseStatement "(I λmain main)" =
      .ok (.term (.app (.var "I") (.lam (some "main") (.var "main")))) := by cbv
  have hlineLimit : parseStatement "(I I I)" =
      .ok (.term (.app (.app (.var "I") (.var "I")) (.var "I"))) := by cbv
  have hlineUnbound : parseStatement "(I y main)" =
      .ok (.term (.app (.app (.var "I") (.var "y")) (.var "main"))) := by cbv
  rcases Option.map_eq_some_iff.1 hbound with ⟨⟨_, outcome⟩, hevaluate, houtcome⟩
  rcases Option.map_eq_some_iff.1 hlimit with ⟨⟨_, outcome'⟩, hevaluate', houtcome'⟩
  rcases Option.map_eq_some_iff.1 hunbound with ⟨⟨_, outcome''⟩, hevaluate'', houtcome''⟩
  have run := Run.nil session
  refine ⟨hcreate, hload, ?_, ?_, ?_⟩
  · exact (evaluate_eq_run_main hcreate hload run hmain hlineBound hevaluate none .run).1 _ houtcome
  · exact (evaluate_eq_run_main hcreate hload run hmain hlineLimit hevaluate' none .run).2.1 _ houtcome'
  · exact (evaluate_eq_run_main hcreate hload run hmain hlineUnbound hevaluate'' none .run).2.2 _
      houtcome'' (by decide)

end

end NamedLambda
