import Mathlib
import NamedLambda.Proofs.GoodBook
import NamedLambda.Proofs.Parsing
import NamedLambda.Proofs.Traces

/-!
This module contains attempts on a session that need not be loaded: to load it or to evaluate a line, in
any order. A definition that is turned down leaves the other bodies resolved, its own name included, so
that a reference to it can be left behind. That does not happen as long as every definition turned down
finds the book settled, which a book is from the first success on.
-/

namespace NamedLambda

open Source (Statement parseBook parseStatement)

theorem Term.resolve_eq_self_iff (names : List String) (term : Term)
    : term.resolve names = term ↔ ∀ name ∈ term.freeVars, name ∉ names := by
  constructor
  · intro h name hname
    rw [← h, freeVars_resolve] at hname
    simpa using (List.mem_filter.1 hname).2
  · intro h
    rw [resolve_eq]
    apply resolveBelow_eq_self
    intro name hname _
    exact h name hname

namespace Book

/--
A book in which every reference names a definition.
-/
def RefsKnown (book : Book) : Prop :=
  ∀ definition ∈ book.definitions, ∀ name ∈ definition.body.refs, name ∈ book.names

instance (book : Book) : Decidable book.RefsKnown :=
  inferInstanceAs
    (Decidable (∀ definition ∈ book.definitions, ∀ name ∈ definition.body.refs, name ∈ book.names))

/--
A book of which no body, apart from the one that a new definition would replace, has a free variable that
is defined or that the new definition would define.
-/
def Settled (book : Book) (definition : Definition) : Prop :=
  ∀ entry ∈ book.definitions, entry.name ≠ definition.name →
    ∀ name ∈ entry.body.freeVars, name ∉ (book.define definition).names

def afterRejection (book : Book) (definition : Definition) : Book :=
  let resolved := (book.define definition).resolve
  match book.find? definition.name with
  | none => resolved.erase definition.name
  | some body => resolved.define { name := definition.name, body }

variable {book : Book} {definition : Definition}

theorem find?_mapBodies (book : Book) (f : Term → Term) (name : String)
    : (book.mapBodies f).find? name = (book.find? name).map f := by
  unfold find? mapBodies
  rw [List.find?_map, Option.map_map, Option.map_map]
  rfl

theorem names_afterRejection (book : Book) (definition : Definition)
    : (book.afterRejection definition).names = book.names := by
  simp only [afterRejection]
  cases hfind : book.find? definition.name with
  | none =>
    have hnew := (find?_eq_none_iff book definition.name).1 hfind
    simp only [resolve]
    rw [mapBodies_define, erase_define, names_mapBodies]
    simpa [names_mapBodies] using hnew
  | some body =>
    have hold := List.mem_map_of_mem (f := Definition.name) (mem_definitions_of_find? hfind)
    have hmem : definition.name ∈ book.names := hold
    rw [names_define, resolve, names_mapBodies, names_define]
    simp [hmem]

theorem find?_afterRejection (book : Book) (definition : Definition) (name : String)
    : (book.afterRejection definition).find? name =
      if name = definition.name then book.find? name
      else (book.find? name).map (Term.resolve (book.define definition).names) := by
  simp only [afterRejection]
  cases hfind : book.find? definition.name with
  | none =>
    have hnew := (find?_eq_none_iff book definition.name).1 hfind
    simp only [resolve]
    rw [mapBodies_define, erase_define, find?_mapBodies]
    · split
      · next heq =>
        rw [heq, hfind]
        rfl
      · rfl
    · simpa [names_mapBodies] using hnew
  | some body =>
    rw [find?_define, resolve, find?_mapBodies, find?_define]
    by_cases heq : name = definition.name
    · simp [heq, hfind]
    · simp [heq, Ne.symm heq]

theorem afterRejection_eq_self_iff (book : Book) (definition : Definition)
    : book.afterRejection definition = book ↔ book.Settled definition := by
  constructor
  · intro h entry hmem hne
    have hfind := find?_of_mem hmem
    rw [← Term.resolve_eq_self_iff]
    have hafter := find?_afterRejection book definition entry.name
    rw [h, if_neg hne, hfind, Option.map_some, Option.some.injEq] at hafter
    exact hafter.symm
  · intro h
    apply eq_of_names_eq
    · exact names_afterRejection book definition
    · intro name
      rw [find?_afterRejection]
      split
      · rfl
      · next hne =>
        cases hfind : book.find? name with
        | none => rfl
        | some body =>
          rw [Option.map_some, Option.some.injEq, Term.resolve_eq_self_iff]
          exact h { name, body } (mem_definitions_of_find? hfind) hne

theorem Good.settled (good : book.Good) (definition : Definition) : book.Settled definition := by
  intro entry hmem _ name hname
  rw [(good entry hmem).closed] at hname
  simp at hname

theorem Good.refsKnown (good : book.Good) : book.RefsKnown := by
  intro entry hmem name hname
  exact (good entry hmem).refs_mem name hname

theorem RefsKnown.resolve (h : book.RefsKnown) : book.resolve.RefsKnown := by
  intro entry hmem name hname
  rw [Book.resolve, names_mapBodies]
  rcases List.mem_map.1 hmem with ⟨source, hsource, heq⟩
  rw [← heq, Term.mem_refs_resolve] at hname
  cases hname with
  | inl hold => exact h source hsource name hold
  | inr hnew => exact hnew.2

theorem RefsKnown.define (h : book.RefsKnown) (hrefs : definition.body.refs = [])
    : (book.define definition).RefsKnown := by
  intro entry hmem name hname
  rw [mem_names_define]
  cases mem_put hmem with
  | inl heq => simp [heq, hrefs] at hname
  | inr hold => exact Or.inr (h entry hold name hname)

end Book

namespace Session

variable {session after : Session} {fuel : Nat}

theorem define_eq_afterRejection (session : Session) (definition : Definition)
    : session.define definition =
      match (session.book.define definition).resolve.check with
      | .ok () => ({ session with book := (session.book.define definition).resolve }, .ok ())
      | .error failure =>
        ({ session with book := session.book.afterRejection definition }, .error failure) := by
  cases hcheck : (session.book.define definition).resolve.check with
  | error failure =>
    cases hfind : session.book.find? definition.name with
    | none => simp only [define, hcheck, hfind, Book.afterRejection]
    | some body => simp only [define, hcheck, hfind, Book.afterRejection]
  | ok value => simp only [define, hcheck]

inductive Evaluated (session after : Session) (line : String) (outcome : Except Failure (List Term)) :
    Prop where
  | term (hline : ∀ definition, parseStatement line ≠ .ok (.definition definition))
    (hbook : after.book = session.book)
  | accepted (definition : Definition) (hline : parseStatement line = .ok (.definition definition))
    (houtcome : outcome = .ok [])
    (hcheck : (session.book.define definition).resolve.check = .ok ())
    (hbook : after.book = (session.book.define definition).resolve)
  | rejected (definition : Definition) (failure : Failure)
    (hline : parseStatement line = .ok (.definition definition)) (houtcome : outcome = .error failure)
    (hbook : after.book = session.book.afterRejection definition)

theorem evaluated {line : String} {number : Option Int} {mode : Mode}
    {outcome : Except Failure (List Term)}
    (h : session.evaluate fuel line number mode = some (after, outcome))
    : Evaluated session after line outcome := by
  simp only [evaluate] at h
  cases hparse : parseStatement line with
  | error error =>
    simp only [hparse, Option.some.injEq, Prod.mk.injEq] at h
    rw [← h.1]
    exact .term (by simp [hparse]) rfl
  | ok statement =>
    cases statement with
    | definition definition =>
      simp only [hparse, define_eq_afterRejection] at h
      cases hcheck : (session.book.define definition).resolve.check with
      | error failure =>
        simp only [hcheck, Option.some.injEq, Prod.mk.injEq] at h
        rw [← h.1, ← h.2]
        exact .rejected definition failure hparse rfl rfl
      | ok value =>
        simp only [hcheck, Option.some.injEq, Prod.mk.injEq] at h
        rw [← h.1, ← h.2]
        exact .accepted definition hparse rfl hcheck rfl
    | term source =>
      apply Evaluated.term (by simp [hparse])
      simp only [hparse] at h
      cases hcheck : (source.resolve session.book.names).check with
      | error failure =>
        simp only [hcheck, Option.some.injEq, Prod.mk.injEq] at h
        rw [← h.1]
      | ok value =>
        simp only [hcheck, Option.bind_eq_bind, Option.bind_eq_some_iff] at h
        rcases h with ⟨reduced, hreduce, hend⟩
        rcases reduced with ⟨last, result⟩
        have hbook : last.book = session.book := by rw [eq_of_reduce hreduce]
        cases result with
        | error failure =>
          simp only [pure, Option.some.injEq, Prod.mk.injEq] at hend
          rw [← hend.1, hbook]
        | ok terms =>
          simp only [pure, Option.some.injEq, Prod.mk.injEq] at hend
          rw [← hend.1, hbook]

end Session

inductive Attempt where
  | load (requireMain : Bool)
  | evaluate (line : String) (number : Option Int) (mode : Mode)
  deriving DecidableEq, Repr, Inhabited

def Session.attempt (fuel : Nat) (session : Session)
    : Attempt → Option (Session × Except Failure (List Term))
  | .load requireMain =>
    let (session, result) := session.load requireMain
    some (session, result.map (fun _ => []))
  | .evaluate line number mode => session.evaluate fuel line number mode

structure Episode where
  before : Session
  attempt : Attempt
  outcome : Except Failure (List Term)
  after : Session

/--
Attempts that are made one after another, whether they fail or not. Each of them ends, with whatever fuel
that takes.
-/
inductive Attempts : Session → List Episode → Session → Prop where
  | nil (session : Session) : Attempts session [] session
  | cons {session next final : Session} {fuel : Nat} {attempt : Attempt}
    {outcome : Except Failure (List Term)} {episodes : List Episode}
    (h : session.attempt fuel attempt = some (next, outcome)) (rest : Attempts next episodes final)
    : Attempts session ({ before := session, attempt, outcome, after := next } :: episodes) final

namespace Episode

def Rejects (episode : Episode) (definition : Definition) : Prop :=
  ∃ line number mode failure, episode.attempt = .evaluate line number mode ∧
    parseStatement line = .ok (.definition definition) ∧ episode.outcome = .error failure

def Succeeds (episode : Episode) : Prop :=
  ∃ terms, episode.outcome = .ok terms ∧
    ∀ line number mode, episode.attempt = .evaluate line number mode →
      ∃ definition, parseStatement line = .ok (.definition definition)

/--
An attempt after which every reference is known, and which has changed no body if it was a line that could
not be evaluated.
-/
structure IsClean (episode : Episode) : Prop where
  refsKnown : episode.after.book.RefsKnown
  book_eq : ∀ line number mode failure, episode.attempt = .evaluate line number mode →
    episode.outcome = .error failure → episode.after.book = episode.before.book

end Episode

namespace Session

variable {session after : Session} {fuel : Nat} {attempt : Attempt}
  {outcome : Except Failure (List Term)}

theorem load_cases {requireMain : Bool}
    (h : session.attempt fuel (.load requireMain) = some (after, outcome))
    : (after.book = session.book ∧ ∃ failure, outcome = .error failure) ∨
      (after.book = session.book.resolve ∧
        outcome = session.book.resolve.check.map (fun _ => [])) := by
  simp only [Session.attempt, Option.some.injEq, Prod.mk.injEq] at h
  rw [← h.1, ← h.2]
  unfold load
  split
  · next failure _ => exact Or.inl ⟨rfl, failure, rfl⟩
  · exact Or.inr ⟨rfl, rfl⟩

theorem isClean_iff (known : session.book.RefsKnown)
    (h : session.attempt fuel attempt = some (after, outcome))
    : Episode.IsClean { before := session, attempt, outcome, after } ↔
      ∀ definition, Episode.Rejects { before := session, attempt, outcome, after } definition →
        session.book.Settled definition := by
  cases attempt with
  | load requireMain =>
    have hclean : Episode.IsClean { before := session, attempt := .load requireMain, outcome, after } := by
      refine ⟨?_, by simp⟩
      rcases load_cases h with ⟨hbook, _⟩ | ⟨hbook, _⟩
      · simp only [hbook]
        exact known
      · simp only [hbook]
        exact known.resolve
    simp [hclean, Episode.Rejects]
  | evaluate line number mode =>
    cases evaluated h with
    | term hline hbook =>
      have hnot : ∀ definition,
          ¬Episode.Rejects
            { before := session, attempt := .evaluate line number mode, outcome, after } definition := by
        rintro definition ⟨_, _, _, _, heq, hparse, _⟩
        rw [Attempt.evaluate.injEq] at heq
        rw [← heq.1] at hparse
        exact hline definition hparse
      constructor
      · intro _ definition hrejects
        exact absurd hrejects (hnot definition)
      · intro _
        refine ⟨?_, fun _ _ _ _ _ _ => hbook⟩
        simp only [hbook]
        exact known
    | accepted definition hline houtcome hcheck hbook =>
      have hnot : ∀ failure, outcome ≠ .error failure := by simp [houtcome]
      constructor
      · rintro _ other ⟨_, _, _, failure, _, _, herror⟩
        exact absurd herror (hnot failure)
      · intro _
        refine ⟨?_, fun _ _ _ failure _ herror => absurd herror (hnot failure)⟩
        simp only [hbook]
        exact (known.define (Source.refs_of_parseStatement_definition hline)).resolve
    | rejected definition failure hline houtcome hbook =>
      have hsettled := Book.afterRejection_eq_self_iff session.book definition
      rw [← hbook] at hsettled
      constructor
      · rintro hclean other ⟨_, _, _, _, heq, hparse, _⟩
        rw [Attempt.evaluate.injEq] at heq
        rw [← heq.1, hline, Except.ok.injEq, Statement.definition.injEq] at hparse
        rw [← hparse]
        exact hsettled.1 (hclean.book_eq line number mode failure rfl houtcome)
      · intro hall
        have hkept := hsettled.2 (hall definition ⟨line, number, mode, failure, rfl, hline, houtcome⟩)
        refine ⟨?_, fun _ _ _ _ _ _ => hkept⟩
        simp only [hkept]
        exact known

theorem good_of_succeeds (known : session.book.RefsKnown)
    (h : session.attempt fuel attempt = some (after, outcome))
    (hsucceeds : Episode.Succeeds { before := session, attempt, outcome, after }) : after.book.Good := by
  rcases hsucceeds with ⟨terms, hok, hdefinition⟩
  simp only at hok hdefinition
  cases attempt with
  | load requireMain =>
    rcases load_cases h with ⟨_, failure, hfailed⟩ | ⟨hbook, hcheck⟩
    · simp [hfailed] at hok
    · rw [hbook]
      apply Book.good_resolve known
      cases hresult : session.book.resolve.check with
      | error failure => simp [hcheck, hresult, Except.map] at hok
      | ok value => rfl
  | evaluate line number mode =>
    rcases hdefinition line number mode rfl with ⟨definition, hparse⟩
    cases evaluated h with
    | term hline _ => exact absurd hparse (hline definition)
    | accepted definition hline _ hcheck hbook =>
      rw [hbook]
      exact Book.good_resolve (known.define (Source.refs_of_parseStatement_definition hline)) hcheck
    | rejected _ _ _ houtcome _ => simp [houtcome] at hok

theorem good_of_attempt (good : session.book.Good)
    (h : session.attempt fuel attempt = some (after, outcome)) : after.book.Good := by
  cases attempt with
  | load requireMain =>
    rcases load_cases h with ⟨hbook, _⟩ | ⟨hbook, _⟩
    · rw [hbook]
      exact good
    · rw [hbook]
      apply Book.good_resolve good.refsKnown
      rw [good.resolve_eq_self]
      exact good.check_eq_ok
  | evaluate line number mode =>
    cases evaluated h with
    | term _ hbook =>
      rw [hbook]
      exact good
    | accepted definition hline _ hcheck hbook =>
      rw [hbook]
      exact Book.good_resolve
        (good.refsKnown.define (Source.refs_of_parseStatement_definition hline)) hcheck
    | rejected definition _ _ _ hbook =>
      rw [hbook, (Book.afterRejection_eq_self_iff _ _).2 (good.settled definition)]
      exact good

end Session

namespace Attempts

variable {session final : Session} {episodes : List Episode}

theorem isClean_iff (run : Attempts session episodes final) (known : session.book.RefsKnown)
    : (∀ episode ∈ episodes, episode.IsClean) ↔
      ∀ episode ∈ episodes, ∀ definition, episode.Rejects definition →
        episode.before.book.Settled definition := by
  induction run with
  | nil session => simp
  | cons h _ ih =>
    have hfirst := Session.isClean_iff known h
    rw [List.forall_mem_cons, List.forall_mem_cons]
    constructor
    · intro hclean
      exact ⟨hfirst.1 hclean.1, (ih hclean.1.refsKnown).1 hclean.2⟩
    · intro hsettled
      have hclean := hfirst.2 hsettled.1
      exact ⟨hclean, (ih hclean.refsKnown).2 hsettled.2⟩

theorem good (run : Attempts session episodes final) (good : session.book.Good) : final.book.Good := by
  induction run with
  | nil session => exact good
  | cons h _ ih => exact ih (Session.good_of_attempt good h)

theorem good_of_succeeds (run : Attempts session episodes final) (known : session.book.RefsKnown)
    (hclean : ∀ episode ∈ episodes, episode.IsClean)
    (hsucceeds : ∃ episode ∈ episodes, episode.Succeeds) : final.book.Good := by
  induction run with
  | nil session => simp at hsucceeds
  | cons h rest ih =>
    rw [List.forall_mem_cons] at hclean
    rcases hsucceeds with ⟨episode, hmem, hepisode⟩
    cases List.mem_cons.1 hmem with
    | inl heq =>
      rw [heq] at hepisode
      exact rest.good (Session.good_of_succeeds known h hepisode)
    | inr hlater => exact ih hclean.1.refsKnown hclean.2 ⟨episode, hlater, hepisode⟩

end Attempts

/--
From a text that was only read, attempts in any order keep every reference known, and those that fail to
evaluate a line change no body, exactly if every definition that is turned down finds the book settled.
Once the book was loaded, or a definition was added to it, it is good and settled for every definition.
-/
theorem refsKnown_iff_settled {code : String} {session final : Session} {episodes : List Episode}
    (hbook : parseBook code = .ok session.book) (run : Attempts session episodes final)
    : ((∀ episode ∈ episodes, episode.IsClean) ↔
        ∀ episode ∈ episodes, ∀ definition, episode.Rejects definition →
          episode.before.book.Settled definition) ∧
      ((∀ episode ∈ episodes, episode.IsClean) → (∃ episode ∈ episodes, episode.Succeeds) →
        final.book.Good ∧ ∀ definition, final.book.Settled definition) := by
  have known : session.book.RefsKnown := by
    intro definition hmem name hname
    rw [Source.refs_of_parseBook hbook definition hmem] at hname
    simp at hname
  refine ⟨run.isClean_iff known, ?_⟩
  intro hclean hsucceeds
  have good := run.good_of_succeeds known hclean hsucceeds
  exact ⟨good, good.settled⟩

theorem refsKnown_iff_settled_loaded
    : let session : Session :=
        { path := "<in>", form := .normal, order := .normal, limit := none
          book := Book.ofList [{ name := "a", body := .var "b" },
            { name := "b", body := .lam (some "x") (.var "x") }]
          results := []
          reporter := Reporter.new false .plain }
      let loaded := { session with book := session.book.resolve }
      let rejecting :=
        { loaded with reporter := loaded.reporter.begin "<in>" (some "c = (b d)") none }
      let episodes : List Episode :=
        [{ before := session, attempt := .load false, outcome := .ok [], after := loaded },
          { before := loaded, attempt := .evaluate "c = (b d)" none .run
            outcome := .error (.unbound "d"), after := rejecting }]
      parseBook "a = b\nb = λx x" = .ok session.book ∧ Attempts session episodes rejecting ∧
        (∀ episode ∈ episodes, episode.IsClean) ∧ rejecting.book.Good := by
  intro session loaded rejecting episodes
  have hbook : parseBook "a = b\nb = λx x" = .ok session.book := by cbv
  have hload : session.attempt 0 (.load false) = some (loaded, .ok []) := by cbv
  have hreject : loaded.attempt 0 (.evaluate "c = (b d)" none .run) =
      some (rejecting, .error (.unbound "d")) := by cbv
  have run : Attempts session episodes rejecting := .cons hload (.cons hreject (.nil rejecting))
  have good : loaded.book.Good := by decide
  have hsettled : ∀ episode ∈ episodes, ∀ definition, episode.Rejects definition →
      episode.before.book.Settled definition := by
    intro episode hmem definition hrejects
    rcases List.mem_cons.1 hmem with heq | hmem
    · rcases hrejects with ⟨_, _, _, _, hattempt, _⟩
      simp [heq] at hattempt
    · rw [List.mem_singleton.1 hmem]
      exact good.settled definition
  rcases refsKnown_iff_settled hbook run with ⟨hiff, hgood⟩
  have hclean := hiff.2 hsettled
  have hsucceeds : ∃ episode ∈ episodes, episode.Succeeds :=
    ⟨_, List.mem_cons_self, [], rfl, by simp⟩
  exact ⟨hbook, run, hclean, (hgood hclean hsucceeds).1⟩

/--
A reference to a definition that was turned down, in a book that was not loaded.
-/
theorem unknown_reference_after_rejection
    : let session : Session :=
        { path := "<in>", form := .normal, order := .normal, limit := none
          book := Book.ofList [{ name := "a", body := .var "b" }]
          results := []
          reporter := Reporter.new false .plain }
      let after : Session :=
        { session with
          book := Book.ofList [{ name := "a", body := .ref "b" }]
          reporter := session.reporter.begin "<in>" (some "b = c") none }
      let episode : Episode :=
        { before := session, attempt := .evaluate "b = c" none .run
          outcome := .error (.unbound "c"), after }
      parseBook "a = b" = .ok session.book ∧ Attempts session [episode] after ∧
        after.book.find? "a" = some (.ref "b") ∧ "b" ∉ after.book.names ∧ ¬episode.IsClean := by
  intro session after episode
  have hreject : session.attempt 0 (.evaluate "b = c" none .run) =
      some (after, .error (.unbound "c")) := by cbv
  have hunknown : ¬after.book.RefsKnown := by decide
  exact ⟨by cbv, .cons hreject (.nil after), by decide, by decide,
    fun hclean => hunknown hclean.refsKnown⟩

end NamedLambda
