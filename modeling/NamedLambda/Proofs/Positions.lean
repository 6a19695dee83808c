import NamedLambda.Proofs.Variables

/-!
This module contains the positions of a term, which are read from the root, and their order. A term is
determined by its nodes, and its free variables stand where no binder above has their name.
-/

namespace NamedLambda

inductive Direction where
  | body
  | function
  | argument
  deriving DecidableEq, Repr

/--
Preorder of positions, which are read from the root: a position comes before those below it, and what is
in a function comes before what is in its argument.
-/
inductive Before : List Direction → List Direction → Prop where
  | outer (direction : Direction) (rest : List Direction) : Before [] (direction :: rest)
  | left (rest more : List Direction) : Before (.function :: rest) (.argument :: more)
  | inside (direction : Direction) {rest more : List Direction} (h : Before rest more)
    : Before (direction :: rest) (direction :: more)

theorem Before.asymm {position other : List Direction} (h : Before position other)
    : ¬Before other position := by
  induction h with
  | outer direction rest =>
    intro h'
    cases h'
  | left rest more =>
    intro h'
    cases h'
  | inside direction _ ih =>
    intro h'
    cases h' with
    | inside _ h' => exact ih h'

theorem Before.eq_or_cons (direction : Direction) {position other : List Direction}
    (h : other = position ∨ Before position other)
    : direction :: other = direction :: position ∨
      Before (direction :: position) (direction :: other) := by
  cases h with
  | inl heq => exact Or.inl (congrArg _ heq)
  | inr hbefore => exact Or.inr (.inside direction hbefore)

inductive Node where
  | lam (binder : Option String)
  | var (name : String)
  | ref (name : String)
  | app
  deriving DecidableEq, Repr

namespace Term

def node? : Term → List Direction → Option Node
  | lam binder _, [] => some (.lam binder)
  | var name, [] => some (.var name)
  | ref name, [] => some (.ref name)
  | app _ _, [] => some .app
  | lam _ body, .body :: rest => body.node? rest
  | app function _, .function :: rest => function.node? rest
  | app _ argument, .argument :: rest => argument.node? rest
  | _, _ :: _ => none

/--
The binders on the way to a position, innermost first.
-/
def bindersAbove : Term → List Direction → List (Option String)
  | lam binder body, .body :: rest => body.bindersAbove rest ++ [binder]
  | app function _, .function :: rest => function.bindersAbove rest
  | app _ argument, .argument :: rest => argument.bindersAbove rest
  | _, _ => []

theorem ext_node? {term other : Term} (h : ∀ position, term.node? position = other.node? position)
    : term = other := by
  induction term generalizing other with
  | lam binder body ih =>
    cases other with
    | lam binder' body' =>
      have hroot := h []
      simp only [node?, Option.some.injEq, Node.lam.injEq] at hroot
      rw [hroot, ih (fun position => h (.body :: position))]
    | _ => simpa [node?] using h []
  | var name =>
    cases other with
    | var name' => simpa [node?] using h []
    | _ => simpa [node?] using h []
  | ref name =>
    cases other with
    | ref name' => simpa [node?] using h []
    | _ => simpa [node?] using h []
  | app function argument ihf iha =>
    cases other with
    | app function' argument' =>
      rw [ihf (fun position => h (.function :: position)),
        iha (fun position => h (.argument :: position))]
    | _ => simpa [node?] using h []

/--
At the position there is a variable that no binder above it binds.
-/
def FreeAt (term : Term) (position : List Direction) (name : String) : Prop :=
  term.node? position = some (.var name) ∧ some name ∉ term.bindersAbove position

theorem freeAt_lam_iff (binder : Option String) (body : Term) (position : List Direction)
    (name : String)
    : (lam binder body).FreeAt position name ↔
      ∃ rest, position = .body :: rest ∧ body.FreeAt rest name ∧ some name ≠ binder := by
  unfold FreeAt
  cases position with
  | nil => simp [node?]
  | cons direction rest =>
    cases direction with
    | body => simp [node?, bindersAbove, and_assoc]
    | function => simp [node?]
    | argument => simp [node?]

theorem freeAt_var_iff (other : String) (position : List Direction) (name : String)
    : (var other).FreeAt position name ↔ position = [] ∧ name = other := by
  unfold FreeAt
  cases position with
  | nil => simp [node?, bindersAbove, eq_comm]
  | cons direction rest => simp [node?]

theorem not_freeAt_ref (other : String) (position : List Direction) (name : String)
    : ¬(ref other).FreeAt position name := by
  unfold FreeAt
  cases position with
  | nil => simp [node?]
  | cons direction rest => simp [node?]

theorem freeAt_app_iff (function argument : Term) (position : List Direction) (name : String)
    : (app function argument).FreeAt position name ↔
      (∃ rest, position = .function :: rest ∧ function.FreeAt rest name) ∨
      (∃ rest, position = .argument :: rest ∧ argument.FreeAt rest name) := by
  unfold FreeAt
  cases position with
  | nil => simp [node?]
  | cons direction rest =>
    cases direction with
    | body => simp [node?]
    | function => simp [node?, bindersAbove]
    | argument => simp [node?, bindersAbove]

theorem mem_freeVars_of_freeAt {term : Term} {position : List Direction} {name : String}
    (h : term.FreeAt position name) : name ∈ term.freeVars := by
  induction term generalizing position with
  | lam binder body ih =>
    rcases (freeAt_lam_iff binder body position name).1 h with ⟨rest, _, hbody, hbinder⟩
    rw [mem_freeVars_lam]
    exact ⟨ih hbody, hbinder⟩
  | var other =>
    rw [mem_freeVars_var]
    exact ((freeAt_var_iff other position name).1 h).2
  | ref other => exact absurd h (not_freeAt_ref other position name)
  | app function argument ihf iha =>
    rw [freeVars_app, List.mem_append]
    rcases (freeAt_app_iff function argument position name).1 h with
      ⟨rest, _, hfunction⟩ | ⟨rest, _, hargument⟩
    · exact Or.inl (ihf hfunction)
    · exact Or.inr (iha hargument)

/--
The position of the first free variable with a property, in preorder.
-/
structure FirstFree (term : Term) (property : String → Prop) (position : List Direction)
    (name : String) : Prop where
  freeAt : term.FreeAt position name
  holds : property name
  before : ∀ other found, term.FreeAt other found → property found →
    other = position ∨ Before position other

-- The property is generalised: below a binder it also excludes the name that is bound there.
theorem exists_firstFree {term : Term} {property : String → Prop} [DecidablePred property]
    {name : String} {more : List String}
    (h : term.freeVars.filter (fun name => property name) = name :: more)
    : ∃ position, term.FirstFree property position name := by
  induction term generalizing property name more with
  | lam binder body ih =>
    rw [freeVars, List.filter_filter] at h
    simp only [← Bool.decide_and] at h
    rcases ih h with ⟨position, hfirst⟩
    refine ⟨.body :: position, ?_, hfirst.holds.1, ?_⟩
    · rw [freeAt_lam_iff]
      exact ⟨position, rfl, hfirst.freeAt, hfirst.holds.2⟩
    · intro other found hfound hproperty
      rcases (freeAt_lam_iff binder body other found).1 hfound with ⟨rest, hother, hbody, hbinder⟩
      rw [hother]
      exact Before.eq_or_cons .body (hfirst.before rest found hbody ⟨hproperty, hbinder⟩)
  | var other =>
    rw [freeVars, List.filter_cons] at h
    split at h
    · next hproperty =>
      rw [List.filter_nil, List.cons.injEq] at h
      rw [← h.1]
      refine ⟨[], ?_, by simpa using hproperty, ?_⟩
      · rw [freeAt_var_iff]
        exact ⟨rfl, rfl⟩
      · intro place found hfound _
        exact Or.inl ((freeAt_var_iff other place found).1 hfound).1
    · simp at h
  | ref other => simp at h
  | app function argument ihf iha =>
    rw [freeVars_app, List.filter_append] at h
    cases hfunction : function.freeVars.filter (fun name => property name) with
    | nil =>
      rw [hfunction, List.nil_append] at h
      rcases iha h with ⟨position, hfirst⟩
      refine ⟨.argument :: position, ?_, hfirst.holds, ?_⟩
      · rw [freeAt_app_iff]
        exact Or.inr ⟨position, rfl, hfirst.freeAt⟩
      · intro other found hfound hproperty
        rcases (freeAt_app_iff function argument other found).1 hfound with
          ⟨rest, _, hrest⟩ | ⟨rest, hother, hrest⟩
        · have hnone := List.filter_eq_nil_iff.1 hfunction found (mem_freeVars_of_freeAt hrest)
          simp [hproperty] at hnone
        · rw [hother]
          exact Before.eq_or_cons .argument (hfirst.before rest found hrest hproperty)
    | cons first others =>
      rw [hfunction, List.cons_append, List.cons.injEq] at h
      rw [h.1] at hfunction
      rcases ihf hfunction with ⟨position, hfirst⟩
      refine ⟨.function :: position, ?_, hfirst.holds, ?_⟩
      · rw [freeAt_app_iff]
        exact Or.inl ⟨position, rfl, hfirst.freeAt⟩
      · intro other found hfound hproperty
        rcases (freeAt_app_iff function argument other found).1 hfound with
          ⟨rest, hother, hrest⟩ | ⟨rest, hother, _⟩
        · rw [hother]
          exact Before.eq_or_cons .function (hfirst.before rest found hrest hproperty)
        · rw [hother]
          exact Or.inr (.left position rest)

theorem mem_freeVars_iff_freeAt (term : Term) (name : String)
    : name ∈ term.freeVars ↔ ∃ position, term.FreeAt position name := by
  constructor
  · intro h
    have hmem : name ∈ term.freeVars.filter (fun other => other = name) := by simpa using h
    rcases List.exists_cons_of_ne_nil (List.ne_nil_of_mem hmem) with ⟨first, more, hcons⟩
    rcases exists_firstFree hcons with ⟨position, hfirst⟩
    have hname : first = name := hfirst.holds
    rw [← hname]
    exact ⟨position, hfirst.freeAt⟩
  · intro h
    rcases h with ⟨position, hfree⟩
    exact mem_freeVars_of_freeAt hfree

end Term

end NamedLambda
