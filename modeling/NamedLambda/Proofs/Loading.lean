import Mathlib
import NamedLambda.Proofs.GoodBook
import NamedLambda.Proofs.Parsing
import NamedLambda.Proofs.Positions

/-!
This module contains the loading of a book that was read from a text. It succeeds exactly if every
variable is bound or defined, and otherwise reports the first one that is neither. A book that was loaded
is good, is written as before, and is not changed by loading it once more.
-/

namespace NamedLambda

open Source (parseBook)

def Term.ScopedIn (names : List String) (term : Term) : Prop :=
  ∀ position name, term.FreeAt position name → name ∈ names

theorem Term.scopedIn_iff (names : List String) (term : Term)
    : term.ScopedIn names ↔ ∀ name ∈ term.freeVars, name ∈ names := by
  constructor
  · intro h name hname
    rcases (mem_freeVars_iff_freeAt term name).1 hname with ⟨position, hfree⟩
    exact h position name hfree
  · intro h position name hfree
    exact h name (mem_freeVars_of_freeAt hfree)

namespace Book

def WellScoped (book : Book) : Prop :=
  ∀ definition ∈ book.definitions, definition.body.ScopedIn book.names

/--
The first body in which a variable is neither bound nor defined has `name` as the first such variable.
-/
def FirstUnbound (book : Book) (name : String) : Prop :=
  ∃ earlier definition later position, book.definitions = earlier ++ definition :: later ∧
    (∀ entry ∈ earlier, entry.body.ScopedIn book.names) ∧
    definition.body.FirstFree (fun found => found ∉ book.names) position name

variable {book : Book}

theorem freeVars_resolve (book : Book)
    : book.resolve.freeVars =
      (book.definitions.map (fun definition => (definition.body.resolve book.names).freeVars)).flatten := by
  rw [freeVars, resolve, mapBodies, List.flatMap_map]
  rfl

theorem resolve_check_eq_ok_iff_wellScoped (book : Book)
    : book.resolve.check = .ok () ↔ book.WellScoped := by
  rw [resolve_check_eq_ok_iff]
  simp only [WellScoped, Term.scopedIn_iff]

theorem exists_firstUnbound {failure : Failure} (h : book.resolve.check = .error failure)
    : ∃ name, failure = .unbound name ∧ book.FirstUnbound name := by
  rw [check_eq, Failure.ofUnbound_eq_error_iff] at h
  rcases h with ⟨name, more, hcons, hfailure⟩
  refine ⟨name, hfailure, ?_⟩
  rw [freeVars_resolve, List.flatten_eq_cons_iff] at hcons
  rcases hcons with ⟨before, others, after, hsplit, hbefore, _⟩
  rcases List.map_eq_append_iff.1 hsplit with ⟨earlier, rest, hdefinitions, hearlier, hrest⟩
  rcases List.map_eq_cons_iff.1 hrest with ⟨definition, later, hlater, hfirst, _⟩
  rw [Term.freeVars_resolve] at hfirst
  rcases Term.exists_firstFree hfirst with ⟨position, hposition⟩
  refine ⟨earlier, definition, later, position, ?_, ?_, hposition⟩
  · rw [hdefinitions, hlater]
  · intro entry hentry
    have hnone : (entry.body.resolve book.names).freeVars = [] := by
      apply hbefore
      rw [← hearlier]
      exact List.mem_map_of_mem hentry
    rw [Term.freeVars_resolve, List.filter_eq_nil_iff] at hnone
    rw [Term.scopedIn_iff]
    simpa using hnone

end Book

namespace Session

variable {session loaded : Session} {requireMain : Bool}

theorem load_eq_ite (session : Session) (requireMain : Bool)
    : session.load requireMain =
      if requireMain = true ∧ "main" ∉ session.book.names then (session, .error .missingMain)
      else ({ session with book := session.book.resolve }, session.book.resolve.check) := by
  unfold load Book.checkMain
  cases requireMain with
  | false => simp
  | true =>
    by_cases hmain : "main" ∈ session.book.names
    · simp [hmain]
    · simp [hmain]

theorem resolve_of_load (hload : session.load requireMain = (loaded, .ok ()))
    : session.book.resolve = loaded.book ∧ loaded.book.check = .ok () := by
  unfold load at hload
  split at hload
  · simp at hload
  · simp only [Prod.mk.injEq] at hload
    rw [← hload.1]
    exact ⟨rfl, hload.2⟩

theorem good_of_load {code : String} (hbook : parseBook code = .ok session.book)
    (hload : session.load requireMain = (loaded, .ok ())) : loaded.book.Good := by
  rcases resolve_of_load hload with ⟨hresolve, hcheck⟩
  rw [← hresolve] at hcheck ⊢
  apply Book.good_resolve
  · intro definition hmem name hname
    rw [Source.refs_of_parseBook hbook definition hmem] at hname
    simp at hname
  · exact hcheck

end Session

/--
A book that was read is loaded exactly if `main` is defined or not required and every variable is bound or
defined. Without the `main` that is required nothing changes. Otherwise the first variable is reported that
is neither bound nor defined. After a success the book is good, every body is written as before, and
loading it again succeeds and changes nothing.
-/
theorem load_accepts_wellScoped {code : String} {session : Session}
    (hbook : parseBook code = .ok session.book) (requireMain : Bool)
    : ((session.load requireMain).2 = .ok () ↔
        (requireMain = true → "main" ∈ session.book.names) ∧ session.book.WellScoped) ∧
      (requireMain = true → "main" ∉ session.book.names →
        session.load requireMain = (session, .error .missingMain)) ∧
      ((requireMain = true → "main" ∈ session.book.names) → ∀ failure,
        (session.load requireMain).2 = .error failure →
        ∃ name, failure = .unbound name ∧ session.book.FirstUnbound name) ∧
      (∀ loaded, session.load requireMain = (loaded, .ok ()) →
        loaded.book.Good ∧
          loaded.book.definitions.map (fun entry => (entry.name, entry.body.render)) =
            session.book.definitions.map (fun entry => (entry.name, entry.body.render)) ∧
          loaded.load requireMain = (loaded, .ok ())) := by
  have hload := session.load_eq_ite requireMain
  refine ⟨?_, ?_, ?_, ?_⟩
  · rw [← Book.resolve_check_eq_ok_iff_wellScoped, hload]
    split
    · next hmissing => simp [hmissing]
    · next hpresent =>
      have hmain : requireMain = true → "main" ∈ session.book.names := by
        simpa using hpresent
      constructor
      · intro hcheck
        exact ⟨hmain, hcheck⟩
      · intro h
        exact h.2
  · intro hrequired hmissing
    rw [hload, if_pos ⟨hrequired, hmissing⟩]
  · intro hmain failure hfailure
    rw [hload, if_neg (by simpa using hmain)] at hfailure
    exact Book.exists_firstUnbound hfailure
  · intro loaded hloaded
    have good := Session.good_of_load hbook hloaded
    have hresolve := (Session.resolve_of_load hloaded).1
    refine ⟨good, ?_, ?_⟩
    · rw [← hresolve, Book.resolve, Book.mapBodies, List.map_map]
      simp only [Function.comp_def, Term.render_resolve]
    · rw [Session.load_eq_ite, good.resolve_eq_self, good.check_eq_ok, if_neg]
      rw [← hresolve, Book.resolve, Book.names_mapBodies]
      intro hmissing
      rw [hload, if_pos hmissing] at hloaded
      simp at hloaded

theorem load_accepts_wellScoped_sibling
    : let session : Session :=
        { path := "<in>", form := .normal, order := .normal, limit := none
          book := Book.ofList
            [{ name := "main", body := .app (.lam (some "a") (.var "a")) (.var "a") },
              { name := "b", body := .lam none (.app (.var "c") (.var "a")) }]
          results := []
          reporter := Reporter.new false .plain }
      parseBook "main = (λa a a) b = λ* (c a)" = .ok session.book ∧
        (session.load true).2 = .error (.unbound "a") ∧ session.book.FirstUnbound "a" := by
  intro session
  have hbook : parseBook "main = (λa a a) b = λ* (c a)" = .ok session.book := by cbv
  have hmain : true = true → "main" ∈ session.book.names := by decide
  have hload : (session.load true).2 = .error (.unbound "a") := by rfl
  rcases (load_accepts_wellScoped hbook true).2.2.1 hmain _ hload with ⟨name, hname, hfirst⟩
  rw [Failure.unbound.injEq] at hname
  rw [← hname] at hfirst
  exact ⟨hbook, hload, hfirst⟩

end NamedLambda
