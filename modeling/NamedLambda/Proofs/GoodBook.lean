import NamedLambda.Session
import NamedLambda.Proofs.BookEntries
import NamedLambda.Proofs.Resolution

/-!
This module contains good books: no body has a free variable, and every reference names a definition.
A book that is good stays good when a definition is accepted, and is left as it was when one is turned
down.
-/

namespace NamedLambda

/--
A term without free variables whose references are among `names`.
-/
structure Term.GoodIn (names : List String) (term : Term) : Prop where
  closed : term.freeVars = []
  refs_mem : ∀ name ∈ term.refs, name ∈ names

instance (names : List String) (term : Term) : Decidable (term.GoodIn names) :=
  decidable_of_iff (term.freeVars = [] ∧ ∀ name ∈ term.refs, name ∈ names)
    ⟨fun h => ⟨h.1, h.2⟩, fun h => ⟨h.closed, h.refs_mem⟩⟩

theorem Term.goodIn_resolve {names : List String} {term : Term}
    (hrefs : ∀ name ∈ term.refs, name ∈ names) (hcheck : (term.resolve names).check = .ok ())
    : (term.resolve names).GoodIn names where
  closed := (Term.check_eq_ok_iff _).1 hcheck
  refs_mem := by
    intro name hname
    rw [Term.mem_refs_resolve] at hname
    cases hname with
    | inl hmem => exact hrefs name hmem
    | inr hmem => exact hmem.2

namespace Book

/--
A book of which every body is good.
-/
def Good (book : Book) : Prop :=
  ∀ definition ∈ book.definitions, definition.body.GoodIn book.names

instance (book : Book) : Decidable book.Good :=
  inferInstanceAs (Decidable (∀ definition ∈ book.definitions, definition.body.GoodIn book.names))

theorem Good.of_find? {book : Book} (good : book.Good) {name : String} {body : Term}
    (h : book.find? name = some body) : body.GoodIn book.names :=
  good { name, body } (mem_definitions_of_find? h)

def freeVars (book : Book) : List String :=
  book.definitions.flatMap (fun definition => definition.body.freeVars)

theorem check_eq (book : Book) : book.check = Failure.ofUnbound book.freeVars := by
  unfold check freeVars
  induction book.definitions with
  | nil => rfl
  | cons first rest ih =>
    rw [List.forM, ih, Term.check_eq, List.flatMap_cons, Failure.ofUnbound_append]

theorem check_eq_ok_iff (book : Book)
    : book.check = .ok () ↔ ∀ definition ∈ book.definitions, definition.body.freeVars = [] := by
  rw [check_eq, Failure.ofUnbound_eq_ok_iff, freeVars, List.flatMap_eq_nil_iff]

theorem resolve_check_eq_ok_iff (book : Book)
    : book.resolve.check = .ok () ↔
      ∀ definition ∈ book.definitions, ∀ name ∈ definition.body.freeVars, name ∈ book.names := by
  rw [check_eq_ok_iff, resolve, mapBodies]
  simp only [List.forall_mem_map, Term.freeVars_resolve, List.filter_eq_nil_iff, decide_eq_true_eq,
    Decidable.not_not]

theorem Good.check_eq_ok {book : Book} (good : book.Good) : book.check = .ok () :=
  (check_eq_ok_iff book).2 (fun definition hmem => (good definition hmem).closed)

theorem Good.resolve_eq_self {book : Book} (good : book.Good) : book.resolve = book := by
  apply mapBodies_eq_self
  intro entry hmem
  exact Term.resolve_eq_self (good entry hmem).closed book.names

theorem good_resolve {book : Book}
    (hrefs : ∀ definition ∈ book.definitions, ∀ name ∈ definition.body.refs, name ∈ book.names)
    (hcheck : book.resolve.check = .ok ()) : book.resolve.Good := by
  rw [check_eq_ok_iff] at hcheck
  intro definition hmem
  have hclosed := hcheck definition hmem
  unfold resolve at hmem ⊢
  rw [names_mapBodies]
  rcases List.mem_map.1 hmem with ⟨source, hsource, heq⟩
  subst heq
  apply Term.goodIn_resolve
  · exact hrefs source hsource
  · exact (Term.check_eq_ok_iff _).2 hclosed

-- References that were resolved before are resolved again, among more names.
theorem resolve_define_resolve (book : Book) (definition : Definition)
    : (book.resolve.define definition).resolve = (book.define definition).resolve := by
  have hnames : (book.resolve.define definition).names = (book.define definition).names := by
    rw [names_define, names_define, resolve, names_mapBodies]
  have hsubset : ∀ name ∈ book.names, name ∈ (book.define definition).names := by
    intro name hname
    rw [mem_names_define]
    exact Or.inr hname
  rw [resolve, hnames, resolve, resolve, mapBodies_define, mapBodies_define, mapBodies_mapBodies]
  simp only [Term.resolve_resolve_of_subset hsubset]

theorem render_resolve (book : Book) : book.resolve.render = book.render := by
  unfold render resolve mapBodies
  rw [List.map_map]
  congr 2
  funext definition
  simp [Definition.render, Term.render_resolve]

/--
The book with one more definition, if that leaves no variable unbound.
-/
def accept (book : Book) (definition : Definition) : Except Failure Book :=
  let book := (book.define definition).resolve
  book.check.map (fun _ => book)

variable {book : Book} {definition : Definition}

-- The bodies of a good book are closed, and resolution only changes the new one.
theorem Good.resolve_define (good : book.Good)
    : (book.define definition).resolve =
      book.define
        { definition with body := definition.body.resolve (book.define definition).names } := by
  unfold resolve
  rw [mapBodies_define]
  congr 1
  apply mapBodies_eq_self
  intro entry hmem
  exact Term.resolve_eq_self (good entry hmem).closed _

theorem accept_eq_ok_iff (book : Book) (definition : Definition) (result : Book)
    : book.accept definition = .ok result ↔
      (book.define definition).resolve.check = .ok () ∧
        (book.define definition).resolve = result := by
  simp only [accept]
  cases (book.define definition).resolve.check with
  | error failure => simp [Except.map]
  | ok value => simp [Except.map]

theorem Good.accept (good : book.Good) (hrefs : definition.body.refs = []) {result : Book}
    (h : book.accept definition = .ok result) : result.Good := by
  rcases (accept_eq_ok_iff book definition result).1 h with ⟨hcheck, hresult⟩
  rw [← hresult]
  apply good_resolve
  · intro entry hmem name hname
    rw [mem_names_define]
    cases mem_put hmem with
    | inl heq =>
      rw [heq, hrefs] at hname
      simp at hname
    | inr hold => exact Or.inr ((good entry hold).refs_mem name hname)
  · exact hcheck

end Book

namespace Session

variable {session : Session} {definition : Definition}

theorem define_eq (good : session.book.Good)
    : session.define definition =
      match session.book.accept definition with
      | .ok book => ({ session with book }, .ok ())
      | .error failure => (session, .error failure) := by
  simp only [define, Book.accept]
  cases hcheck : (session.book.define definition).resolve.check with
  | ok value => rfl
  | error failure =>
    simp only [Except.map]
    congr 2
    rw [good.resolve_define]
    cases hfind : session.book.find? definition.name with
    | none =>
      simp only
      apply Book.erase_define
      exact (Book.find?_eq_none_iff _ _).1 hfind
    | some body =>
      simp only
      rw [Book.define_define]
      · exact Book.define_eq_self hfind
      · rfl

end Session

end NamedLambda
