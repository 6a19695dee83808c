import NamedLambda.Book

/-!
This module contains the laws of looking up, adding and removing definitions of a book. A definition that
was added can be taken back: removing a new one, or adding the one it replaced, gives the old book.
-/

namespace NamedLambda.Book

theorem eq_of_definitions_eq {book other : Book} (h : book.definitions = other.definitions)
    : book = other := by
  cases book
  cases other
  simp only at h
  subst h
  rfl

theorem mem_put {definition entry : Definition} {entries : List Definition}
    (h : entry ∈ put definition entries) : entry = definition ∨ entry ∈ entries := by
  induction entries with
  | nil => simpa [put] using h
  | cons first rest ih =>
    unfold put at h
    split at h
    · rw [List.mem_cons] at h
      cases h with
      | inl h => exact Or.inl h
      | inr h => exact Or.inr (List.mem_cons_of_mem first h)
    · rw [List.mem_cons] at h
      cases h with
      | inl h => exact Or.inr (by simp [h])
      | inr h =>
        cases ih h with
        | inl h => exact Or.inl h
        | inr h => exact Or.inr (List.mem_cons_of_mem first h)

theorem find?_put (definition : Definition) (entries : List Definition) (name : String)
    : (put definition entries).find? (fun entry => entry.name == name) =
      if definition.name = name then some definition
      else entries.find? (fun entry => entry.name == name) := by
  induction entries with
  | nil =>
    by_cases h : definition.name = name
    · simp [put, h]
    · simp [put, h]
  | cons first rest ih =>
    unfold put
    split
    · next heq =>
      by_cases h : definition.name = name
      · simp [h]
      · simp [heq, h]
    · next hne =>
      rw [List.find?_cons, List.find?_cons, ih]
      by_cases h : first.name = name
      · have : definition.name ≠ name := fun eq => hne (h.trans eq.symm)
        simp [h, this]
      · simp only [beq_eq_false_iff_ne.2 h]

theorem map_put (f : Definition → Definition) (hf : ∀ entry, (f entry).name = entry.name)
    (definition : Definition) (entries : List Definition)
    : (put definition entries).map f = put (f definition) (entries.map f) := by
  induction entries with
  | nil => rfl
  | cons first rest ih =>
    simp only [put, List.map_cons, hf]
    split
    · rfl
    · rw [List.map_cons, ih]

theorem put_put (definition other : Definition) (h : definition.name = other.name)
    (entries : List Definition) : put definition (put other entries) = put definition entries := by
  induction entries with
  | nil => simp [put, h]
  | cons first rest ih =>
    by_cases heq : first.name = other.name
    · simp [put, heq, h]
    · have : ¬first.name = definition.name := by
        rw [h]
        exact heq
      simp [put, heq, this, ih]

theorem put_eq_self {definition : Definition} {entries : List Definition}
    (h : entries.find? (fun entry => entry.name == definition.name) = some definition)
    : put definition entries = entries := by
  induction entries with
  | nil => simp at h
  | cons first rest ih =>
    unfold put
    split
    · next heq =>
      rw [List.find?_cons, heq] at h
      simpa using h.symm
    · next hne =>
      rw [List.find?_cons] at h
      simp only [beq_eq_false_iff_ne.2 hne] at h
      rw [ih h]

theorem put_eq_append {definition : Definition} {entries : List Definition}
    (h : definition.name ∉ entries.map Definition.name)
    : put definition entries = entries ++ [definition] := by
  induction entries with
  | nil => rfl
  | cons first rest ih =>
    rw [List.map_cons, List.mem_cons, not_or] at h
    rw [put, if_neg (Ne.symm h.1), ih h.2, List.cons_append]

theorem filter_put {definition : Definition} {entries : List Definition}
    (h : definition.name ∉ entries.map Definition.name)
    : (put definition entries).filter (fun entry => entry.name != definition.name) = entries := by
  induction entries with
  | nil => simp [put]
  | cons first rest ih =>
    rw [List.map_cons, List.mem_cons, not_or] at h
    have hne : first.name ≠ definition.name := Ne.symm h.1
    simp [put, hne, ih h.2]

/-!
The same for books.
-/

theorem find?_define (book : Book) (definition : Definition) (name : String)
    : (book.define definition).find? name =
      if definition.name = name then some definition.body else book.find? name := by
  unfold find? define
  rw [find?_put]
  split <;> rfl

theorem find?_eq_none_iff (book : Book) (name : String)
    : book.find? name = none ↔ name ∉ book.names := by
  simp [find?, names]

theorem mem_definitions_of_find? {book : Book} {name : String} {body : Term}
    (h : book.find? name = some body) : { name, body } ∈ book.definitions := by
  unfold find? at h
  rcases Option.map_eq_some_iff.1 h with ⟨entry, hfind, hbody⟩
  have hname := List.find?_some hfind
  simp only [beq_iff_eq] at hname
  rw [← hname, ← hbody]
  exact List.mem_of_find?_eq_some hfind

theorem exists_find? {book : Book} {name : String} (h : name ∈ book.names)
    : ∃ body, book.find? name = some body := by
  cases hfind : book.find? name with
  | none => exact absurd h ((find?_eq_none_iff book name).1 hfind)
  | some body => exact ⟨body, rfl⟩

theorem mem_names_define (book : Book) (definition : Definition) (name : String)
    : name ∈ (book.define definition).names ↔ name = definition.name ∨ name ∈ book.names := by
  rw [names_define]
  split
  · next h =>
    constructor
    · exact Or.inr
    · intro hname
      cases hname with
      | inl heq => exact heq ▸ h
      | inr hmem => exact hmem
  · simp [or_comm]

theorem define_define (book : Book) (definition other : Definition)
    (h : definition.name = other.name)
    : (book.define other).define definition = book.define definition := by
  apply eq_of_definitions_eq
  exact put_put definition other h book.definitions

theorem define_eq_self {book : Book} {name : String} {body : Term}
    (h : book.find? name = some body) : book.define { name, body } = book := by
  apply eq_of_definitions_eq
  apply put_eq_self
  unfold find? at h
  rcases Option.map_eq_some_iff.1 h with ⟨entry, hfind, hbody⟩
  have hname := List.find?_some hfind
  simp only [beq_iff_eq] at hname
  rw [hfind, ← hname, ← hbody]

theorem erase_define {book : Book} {definition : Definition} (h : definition.name ∉ book.names)
    : (book.define definition).erase definition.name = book := by
  apply eq_of_definitions_eq
  exact filter_put h

theorem mapBodies_define (book : Book) (f : Term → Term) (definition : Definition)
    : (book.define definition).mapBodies f =
      (book.mapBodies f).define { definition with body := f definition.body } := by
  apply eq_of_definitions_eq
  exact map_put (fun entry => { entry with body := f entry.body }) (fun _ => rfl) definition
    book.definitions

theorem mapBodies_mapBodies (book : Book) (f g : Term → Term)
    : (book.mapBodies f).mapBodies g = book.mapBodies (fun body => g (f body)) := by
  apply eq_of_definitions_eq
  simp [mapBodies, Function.comp_def]

theorem mapBodies_eq_self {book : Book} {f : Term → Term}
    (h : ∀ definition ∈ book.definitions, f definition.body = definition.body)
    : book.mapBodies f = book := by
  apply eq_of_definitions_eq
  have hfixed : ∀ definition ∈ book.definitions,
      ({ definition with body := f definition.body } : Definition) = definition := by
    intro definition hmem
    rw [h definition hmem]
  exact (List.map_congr_left hfixed).trans (List.map_id' book.definitions)

/-!
A book is determined by its names and what they stand for. In the book of a list of definitions a
name keeps the place of its first definition and stands for the body of its last one.
-/

theorem find?_of_mem {book : Book} {definition : Definition} (h : definition ∈ book.definitions)
    : book.find? definition.name = some definition.body := by
  have hfind : ∀ entries : List Definition, (entries.map Definition.name).Nodup →
      definition ∈ entries →
      entries.find? (fun entry => entry.name == definition.name) = some definition := by
    intro entries
    induction entries with
    | nil => simp
    | cons first rest ih =>
      intro hnodup hmem
      rw [List.map_cons, List.nodup_cons] at hnodup
      rw [List.find?_cons]
      cases List.mem_cons.1 hmem with
      | inl heq => simp [heq]
      | inr hrest =>
        have hne : first.name ≠ definition.name := by
          intro heq
          apply hnodup.1
          rw [heq]
          exact List.mem_map_of_mem hrest
        simp only [beq_eq_false_iff_ne.2 hne]
        exact ih hnodup.2 hrest
  unfold find?
  rw [hfind book.definitions book.nodup h]
  rfl

theorem definitions_eq_map (book : Book)
    : book.definitions =
      book.names.map (fun name => { name, body := (book.find? name).getD default }) := by
  unfold names
  rw [List.map_map]
  have hfixed : ∀ definition ∈ book.definitions,
      ({ name := definition.name, body := (book.find? definition.name).getD default } : Definition) =
        definition := by
    intro definition hmem
    rw [find?_of_mem hmem]
    rfl
  exact ((List.map_congr_left hfixed).trans (List.map_id' book.definitions)).symm

theorem eq_of_names_eq {book other : Book} (hnames : book.names = other.names)
    (hfind : ∀ name, book.find? name = other.find? name) : book = other := by
  apply eq_of_definitions_eq
  rw [definitions_eq_map book, definitions_eq_map other, hnames]
  simp only [hfind]

theorem ofList_reverse_cons (definition : Definition) (definitions : List Definition)
    : ofList (definition :: definitions).reverse = (ofList definitions.reverse).define definition := by
  simp [ofList]

-- Definitions of new names are added at the end.
theorem definitions_foldl_define (book : Book) (definitions : List Definition)
    (h : ((book.definitions ++ definitions).map Definition.name).Nodup)
    : (definitions.foldl define book).definitions = book.definitions ++ definitions := by
  induction definitions generalizing book with
  | nil => simp
  | cons definition definitions ih =>
    have hput : (book.define definition).definitions = book.definitions ++ [definition] := by
      apply put_eq_append
      intro hmem
      rw [List.map_append, List.nodup_append] at h
      exact h.2.2 _ hmem definition.name (by simp) rfl
    rw [List.foldl_cons, ih, hput, List.append_assoc, List.singleton_append]
    rw [hput, List.append_assoc, List.singleton_append]
    exact h

theorem ofList_definitions (book : Book) : ofList book.definitions = book := by
  apply eq_of_definitions_eq
  apply definitions_foldl_define empty
  exact book.nodup

theorem eraseDups_concat (names : List String) (name : String)
    : (names ++ [name]).eraseDups =
      if name ∈ names then names.eraseDups else names.eraseDups ++ [name] := by
  rw [List.eraseDups_append]
  by_cases h : name ∈ names
  · simp [List.removeAll, h]
  · simp [List.removeAll, h, List.eraseDups_cons]

theorem names_ofList (definitions : List Definition)
    : (ofList definitions).names = (definitions.map Definition.name).eraseDups := by
  have hreverse : ∀ entries : List Definition,
      (ofList entries.reverse).names = (entries.reverse.map Definition.name).eraseDups := by
    intro entries
    induction entries with
    | nil => rfl
    | cons definition entries ih =>
      rw [ofList_reverse_cons, names_define, ih, List.reverse_cons, List.map_append, List.map_cons,
        List.map_nil, eraseDups_concat]
      simp only [List.mem_eraseDups]
  rw [← List.reverse_reverse definitions]
  exact hreverse definitions.reverse

theorem find?_ofList (definitions : List Definition) (name : String)
    : (ofList definitions).find? name =
      (definitions.reverse.find? (fun definition => definition.name == name)).map
        Definition.body := by
  have hreverse : ∀ entries : List Definition,
      (ofList entries.reverse).find? name =
        (entries.find? (fun definition => definition.name == name)).map Definition.body := by
    intro entries
    induction entries with
    | nil => rfl
    | cons definition entries ih =>
      rw [ofList_reverse_cons, find?_define, ih, List.find?_cons]
      by_cases heq : definition.name = name
      · simp [heq]
      · simp [heq, beq_eq_false_iff_ne.2 heq]
  have := hreverse definitions.reverse
  rw [List.reverse_reverse] at this
  exact this

/--
A book that holds the given definitions, made one after the other.
-/
structure Holds (book : Book) (definitions : List Definition) : Prop where
  names_eq : book.names = (definitions.map Definition.name).eraseDups
  find?_eq : ∀ name, book.find? name =
    (definitions.reverse.find? (fun definition => definition.name == name)).map Definition.body

theorem holds_iff (book : Book) (definitions : List Definition)
    : book.Holds definitions ↔ ofList definitions = book := by
  constructor
  · intro h
    apply eq_of_names_eq
    · rw [names_ofList, h.names_eq]
    · intro name
      rw [find?_ofList, h.find?_eq]
  · intro h
    subst h
    exact ⟨names_ofList definitions, find?_ofList definitions⟩

theorem Holds.mem_of_mem {book : Book} {definitions : List Definition} (h : book.Holds definitions)
    {definition : Definition} (hmem : definition ∈ book.definitions) : definition ∈ definitions := by
  have hfind := find?_of_mem hmem
  rw [h.find?_eq] at hfind
  rcases Option.map_eq_some_iff.1 hfind with ⟨source, hsource, hbody⟩
  have hname := List.find?_some hsource
  simp only [beq_iff_eq] at hname
  have heq : source = definition := by
    cases source
    cases definition
    simp only at hname hbody
    rw [hname, hbody]
  rw [← heq]
  exact List.mem_reverse.1 (List.mem_of_find?_eq_some hsource)

end NamedLambda.Book
