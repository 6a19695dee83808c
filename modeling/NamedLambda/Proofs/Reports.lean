import NamedLambda.Report.Reporter
import NamedLambda.Proofs.ErrorPlaces

/-!
This module contains the reports of failures. The first issue of a text that cannot be read has a place
in this text. Hence every failure that is no fault is reported as an error, with its excerpt if it has one
to show.
-/

namespace NamedLambda

open Text (Colour Paint)

namespace Diagnostic

def below (paint : Paint) (colour : Colour) (diagnostic : Diagnostic) : String :=
  if diagnostic.hasExcerpt then
    match diagnostic.excerpt paint colour with
    | .ok excerpt => excerpt ++ "\n"
    | .error _ => ""
  else ""

def report (paint : Paint) (diagnostic : Diagnostic) : String :=
  paint.strong .red "error: " ++ diagnostic.painted paint ++ "\n" ++ diagnostic.below paint .red

end Diagnostic

/--
The diagnostic of a failure that is reported as an error of the user.
-/
structure Failure.Reported (failure : Failure) (diagnostic : Diagnostic) : Prop where
  diagnostic_eq : failure.diagnostic = .ok diagnostic
  internal_eq : diagnostic.internal = false
  exists_excerpt : diagnostic.hasExcerpt = true →
    ∀ paint colour, ∃ excerpt, diagnostic.excerpt paint colour = .ok excerpt

theorem Source.SyntaxError.Located.exists_reported {error : SyntaxError} {code : String}
    {issue : Issue} {before marked rest : List Char} (h : error.Located code issue before marked rest)
    : ∃ diagnostic, (Failure.syntaxError error).Reported diagnostic := by
  rcases h.exists_fits with ⟨diagnostic, hdiagnostic, hfits, hinternal, _⟩
  refine ⟨diagnostic, hdiagnostic, hinternal, ?_⟩
  intro _ paint colour
  exact ⟨_, hfits.excerpt_eq paint colour⟩

theorem Failure.exists_reported {failure : Failure} (hfault : ∀ cause, failure ≠ .fault cause)
    (hplaced : ∀ error, failure = .syntaxError error → ∃ code issue before marked rest,
      error.Located code issue before marked rest)
    : ∃ diagnostic, failure.Reported diagnostic := by
  have hhidden : ∀ diagnostic : Diagnostic, failure.diagnostic = .ok diagnostic.hidden →
      diagnostic.internal = false → ∃ diagnostic, failure.Reported diagnostic := by
    intro diagnostic hdiagnostic hinternal
    refine ⟨diagnostic.hidden, hdiagnostic, hinternal, ?_⟩
    simp [Diagnostic.hasExcerpt, Diagnostic.hidden]
  cases failure with
  | syntaxError error =>
    rcases hplaced error rfl with ⟨code, issue, before, marked, rest, hlocated⟩
    exact hlocated.exists_reported
  | fault cause => exact absurd rfl (hfault cause)
  | missingMain => exact hhidden _ rfl rfl
  | unbound name => exact hhidden _ rfl rfl
  | stepLimit limit => exact hhidden _ rfl rfl
  | notImplemented feature name => exact hhidden _ rfl rfl
  | unreadable path => exact hhidden _ rfl rfl
  | unknownMode name => exact hhidden _ rfl rfl

namespace Reporter

@[simp]
theorem write_empty (reporter : Reporter) : reporter.write "" = reporter := by
  simp [write]

theorem write_write (reporter : Reporter) (text more : String)
    : (reporter.write text).write more = reporter.write (text ++ more) := by
  simp [write, String.append_assoc]

section

variable {diagnostic : Diagnostic} {colour : Colour} {reporter : Reporter}

theorem writeExcerpt_eq
    (h : diagnostic.hasExcerpt = true →
      ∃ excerpt, diagnostic.excerpt reporter.paint colour = .ok excerpt)
    : reporter.writeExcerpt colour diagnostic =
      (reporter.write (diagnostic.below reporter.paint colour), none) := by
  unfold writeExcerpt Diagnostic.below
  cases hshown : diagnostic.hasExcerpt with
  | false => simp
  | true =>
    rcases h hshown with ⟨excerpt, hexcerpt⟩
    simp [hexcerpt]

def warning (reporter : Reporter) (message : String) : String :=
  (if reporter.location.isEmpty then "" else reporter.paint.bold reporter.location)
    ++ reporter.paint.strong .magenta "warning: " ++ message ++ "\n"

/--
A warning is written whole, unless there is an excerpt to show that cannot be made.
-/
theorem warn_eq
    (h : diagnostic.hasExcerpt = true →
      ∃ excerpt, diagnostic.excerpt reporter.paint .magenta = .ok excerpt)
    : reporter.warn diagnostic =
      (reporter.write (reporter.warning (diagnostic.painted reporter.paint) ++
        diagnostic.below reporter.paint .magenta), none) := by
  have hbriefly : reporter.warnBriefly diagnostic =
      reporter.write (reporter.warning (diagnostic.painted reporter.paint)) := by rfl
  rw [warn, hbriefly, writeExcerpt_eq]
  · rw [write_write]
    rfl
  · exact h

end

theorem guard_of_reported {failure : Failure} {diagnostic : Diagnostic}
    (h : failure.Reported diagnostic) (reporter : Reporter)
    : reporter.guard failure.interruption =
      let written := reporter.write (reporter.trace ++ diagnostic.report reporter.paint)
      if reporter.fatal then (written, some (.exit (.code 1))) else (written.clear, none) := by
  simp only [Failure.interruption, h.diagnostic_eq, guard, error, h.internal_eq, Bool.false_eq_true,
    if_false]
  rw [writeExcerpt_eq]
  · rw [write_write]
    simp [Diagnostic.report, write, String.append_assoc]
  · intro hshown
    exact h.exists_excerpt hshown reporter.paint .red

def paths (reporter : Reporter) : List String :=
  reporter.activities.map Activity.path

def Idle (reporter : Reporter) : Prop :=
  ∀ activity ∈ reporter.activities, activity.line = none

instance (reporter : Reporter) : Decidable reporter.Idle :=
  inferInstanceAs (Decidable (∀ activity ∈ reporter.activities, activity.line = none))

theorem map_path_go (activity : Activity) (entries : List Activity)
    : (setActivity.go activity entries).map Activity.path =
      if activity.path ∈ entries.map Activity.path then entries.map Activity.path
      else entries.map Activity.path ++ [activity.path] := by
  induction entries with
  | nil => simp [setActivity.go]
  | cons entry rest ih =>
    simp only [setActivity.go]
    by_cases h : entry.path = activity.path
    · simp [h]
    · simp only [h, if_false, List.map_cons, ih, List.mem_cons, Ne.symm h, false_or]
      split
      · simp
      · simp

theorem paths_setActivity (reporter : Reporter) (activity : Activity)
    : (reporter.setActivity activity).paths =
      if activity.path ∈ reporter.paths then reporter.paths
      else reporter.paths ++ [activity.path] := by
  apply map_path_go

theorem mem_setActivity {reporter : Reporter} {activity entry : Activity}
    (h : entry ∈ (reporter.setActivity activity).activities)
    : entry = activity ∨ entry ∈ reporter.activities := by
  revert h
  simp only [setActivity]
  induction reporter.activities with
  | nil => simp [setActivity.go]
  | cons first rest ih =>
    intro h
    simp only [setActivity.go] at h
    split at h
    · cases List.mem_cons.1 h with
      | inl heq => exact Or.inl heq
      | inr hrest => exact Or.inr (List.mem_cons_of_mem _ hrest)
    · cases List.mem_cons.1 h with
      | inl heq => exact Or.inr (by simp [heq])
      | inr hrest =>
        cases ih hrest with
        | inl heq => exact Or.inl heq
        | inr hmem => exact Or.inr (List.mem_cons_of_mem _ hmem)

theorem setActivity_setActivity {activity other : Activity} (h : activity.path = other.path)
    (reporter : Reporter)
    : (reporter.setActivity activity).setActivity other = reporter.setActivity other := by
  simp only [setActivity, mk.injEq, and_true, true_and]
  induction reporter.activities with
  | nil => simp [setActivity.go, h]
  | cons first rest ih =>
    by_cases heq : first.path = other.path
    · simp [setActivity.go, h, heq]
    · simp [setActivity.go, h, heq, ih]

theorem register_begin (reporter : Reporter) (path : String) (line : Option String)
    (number : Option Int) : (reporter.begin path line number).register path = reporter.register path := by
  unfold register begin
  apply setActivity_setActivity
  rfl

theorem Idle.register {reporter : Reporter} (idle : reporter.Idle) (path : String)
    : (reporter.register path).Idle := by
  intro activity hmem
  cases mem_setActivity hmem with
  | inl heq => simp [heq]
  | inr hold => exact idle activity hold

theorem idle_clear (reporter : Reporter) : reporter.clear.Idle := by
  intro activity hmem
  rcases List.mem_map.1 hmem with ⟨entry, _, heq⟩
  simp [← heq]

theorem paths_clear (reporter : Reporter) : reporter.clear.paths = reporter.paths := by
  simp [paths, clear, Function.comp_def]

end Reporter

end NamedLambda
