import NamedLambda.Term

/-!
This module contains books: lists of named definitions in which every name is defined once. Defining a
name again keeps its place in the book and replaces its body.
-/

namespace NamedLambda

structure Definition where
  name : String
  body : Term
  deriving DecidableEq, Repr, Inhabited

def Definition.render (definition : Definition) : String :=
  definition.name ++ " = " ++ definition.body.render

/--
Definitions in the order in which their names were first defined.
-/
structure Book where
  definitions : List Definition
  nodup : (definitions.map Definition.name).Nodup
  deriving DecidableEq

namespace Book

def empty : Book where
  definitions := []
  nodup := by simp

instance : Inhabited Book := ⟨empty⟩

def names (book : Book) : List String :=
  book.definitions.map Definition.name

def find? (book : Book) (name : String) : Option Term :=
  (book.definitions.find? (fun definition => definition.name == name)).map Definition.body

def put (definition : Definition) : List Definition → List Definition
  | [] => [definition]
  | entry :: rest =>
    if entry.name = definition.name then definition :: rest else entry :: put definition rest

theorem map_name_put (definition : Definition) (entries : List Definition) :
    (put definition entries).map Definition.name =
      if definition.name ∈ entries.map Definition.name then entries.map Definition.name
      else entries.map Definition.name ++ [definition.name] := by
  induction entries with
  | nil => simp [put]
  | cons entry rest ih =>
    by_cases h : entry.name = definition.name
    · simp [put, h]
    · have h' : ¬definition.name = entry.name := fun eq => h eq.symm
      simp only [put, h, if_false, List.map_cons, ih, List.mem_cons, h', false_or]
      split <;> simp

theorem nodup_map_name_put (definition : Definition) (entries : List Definition)
    (h : (entries.map Definition.name).Nodup) :
    ((put definition entries).map Definition.name).Nodup := by
  rw [map_name_put]
  split
  · exact h
  · rename_i hmem
    rw [List.nodup_append]
    refine ⟨h, by simp, ?_⟩
    intro a ha b hb eq
    simp only [List.mem_singleton] at hb
    exact hmem (hb ▸ eq ▸ ha)

def define (book : Book) (definition : Definition) : Book where
  definitions := put definition book.definitions
  nodup := nodup_map_name_put definition book.definitions book.nodup

theorem names_define (book : Book) (definition : Definition) :
    (book.define definition).names =
      if definition.name ∈ book.names then book.names else book.names ++ [definition.name] :=
  map_name_put definition book.definitions

def ofList (definitions : List Definition) : Book :=
  definitions.foldl define empty

def erase (book : Book) (name : String) : Book where
  definitions := book.definitions.filter (fun definition => definition.name != name)
  nodup := book.nodup.sublist (List.filter_sublist.map Definition.name)

def mapBodies (book : Book) (f : Term → Term) : Book where
  definitions := book.definitions.map (fun definition => { definition with body := f definition.body })
  nodup := by simpa [Function.comp_def] using book.nodup

theorem names_mapBodies (book : Book) (f : Term → Term) : (book.mapBodies f).names = book.names := by
  simp [names, mapBodies, Function.comp_def]

def render (book : Book) : String :=
  "\n".intercalate (book.definitions.map Definition.render)

end Book

end NamedLambda
