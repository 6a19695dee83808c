import NamedLambda.Shell
import NamedLambda.Proofs.History
import NamedLambda.Proofs.KnownReferences
import NamedLambda.Proofs.Mistakes

/-!
This module contains runs of a shell: lines that are performed one after another, whatever they are. On a
session that was loaded, and under a limit, every line comes to an end, leaves the shell intact, and is
told apart from the others by its text alone.
-/

namespace NamedLambda

open Source (parseBook parseStatement)

namespace Session

variable {session after : Session} {fuel : Nat}

-- The reporter begins the line, and is done with it unless there is a failure.
theorem reporter_of_evaluate {line : String} {number : Option Int} {mode : Mode}
    {outcome : Except Failure (List Term)}
    (h : session.evaluate fuel line number mode = some (after, outcome))
    : (∃ failure, outcome = .error failure ∧
        after.reporter = session.reporter.begin session.path (some line) number) ∨
      (∃ terms text, outcome = .ok terms ∧
        after.reporter = (session.reporter.register session.path).write text) := by
  simp only [evaluate] at h
  cases hparse : parseStatement line with
  | error error =>
    simp only [hparse, Option.some.injEq, Prod.mk.injEq] at h
    rw [← h.1, ← h.2]
    exact Or.inl ⟨_, rfl, rfl⟩
  | ok statement =>
    cases statement with
    | definition definition =>
      simp only [hparse, define_eq_afterRejection] at h
      cases hcheck : (session.book.define definition).resolve.check with
      | error failure =>
        simp only [hcheck, Option.some.injEq, Prod.mk.injEq] at h
        rw [← h.1, ← h.2]
        exact Or.inl ⟨failure, rfl, rfl⟩
      | ok value =>
        simp only [hcheck, Option.some.injEq, Prod.mk.injEq] at h
        rw [← h.1, ← h.2]
        refine Or.inr ⟨[], "", rfl, ?_⟩
        rw [Reporter.write_empty]
        apply Reporter.register_begin
    | term source =>
      simp only [hparse] at h
      cases hcheck : (source.resolve session.book.names).check with
      | error failure =>
        simp only [hcheck, Option.some.injEq, Prod.mk.injEq] at h
        rw [← h.1, ← h.2]
        exact Or.inl ⟨failure, rfl, rfl⟩
      | ok value =>
        simp only [hcheck, Option.bind_eq_bind, Option.bind_eq_some_iff] at h
        rcases h with ⟨reduced, hreduce, hend⟩
        rcases reduced with ⟨last, result⟩
        have hlast := eq_of_reduce hreduce
        cases result with
        | error failure =>
          simp only [pure, Option.some.injEq, Prod.mk.injEq] at hend
          rw [← hend.1, ← hend.2, hlast]
          refine Or.inl ⟨failure, rfl, ?_⟩
          cases mode <;> simp [warnings]
        | ok terms =>
          simp only [pure, Option.some.injEq, Prod.mk.injEq] at hend
          have hpath : last.path = session.path := by rw [hlast]
          have hreporter : ∃ text, last.reporter =
              (session.reporter.begin session.path (some line) number).write text := by
            rw [hlast]
            exact ⟨_, rfl⟩
          rcases hreporter with ⟨text, hreporter⟩
          rw [← hend.1, ← hend.2]
          refine Or.inr ⟨terms, text, rfl, ?_⟩
          simp only [hpath, hreporter]
          rw [← Reporter.register_begin session.reporter session.path (some line) number]
          rfl

theorem paths_of_run {mode : Mode} {outcome : Except Failure (List Term)}
    (h : session.run fuel mode = some (after, outcome))
    : after.reporter.paths = session.reporter.paths := by
  cases hfind : session.book.find? "main" with
  | none =>
    simp only [run, hfind, Option.some.injEq, Prod.mk.injEq] at h
    rw [← h.1]
  | some main =>
    rw [(reduced_of_run hfind h).2]
    rfl

-- The limit is all that makes the call end.
theorem exists_perform {bound : Limit} (good : session.book.Good) (hlimit : session.limit = some bound)
    (fuel : Nat) (call : Call) : ∃ after outcome, session.perform fuel call = some (after, outcome) := by
  rcases exists_answer hlimit fuel call with ⟨answer, hanswer⟩
  rcases exists_perform_eq good fuel call with ⟨reporter, hperform⟩
  rw [hanswer, Option.map_some] at hperform
  exact ⟨_, _, hperform⟩

theorem evaluate_reported {limit : Option Int} {line : String} {number : Option Int} {mode : Mode}
    {failure : Failure} (good : session.book.Good) (hlimit : session.limit = limit.map .steps)
    (hmode : mode = .run ∨ mode = .stepped)
    (h : session.evaluate fuel line number mode = some (after, .error failure))
    : ∃ diagnostic, failure.Reported diagnostic := by
  have hperform : session.perform fuel (.evaluate line number mode) = some (after, .error failure) := h
  rcases perform_cases good hperform with ⟨cause, _, hanswer, _, heq⟩ | ⟨_, _, _, _, _, heq⟩
  · rw [Except.error.injEq] at heq
    rw [← heq] at hanswer
    exact answer_reported good hlimit hmode hanswer
  · simp at heq

structure Ready (limit : Int) (paths : List String) (session : Session) : Prop where
  good : session.book.Good
  limit_eq : session.limit = some (.steps limit)
  paths_eq : session.reporter.paths = paths
  path_mem : session.path ∈ paths

variable {limit : Int} {paths : List String}

theorem Ready.paths_setActivity (ready : session.Ready limit paths) {activity : Activity}
    (h : activity.path = session.path) : (session.reporter.setActivity activity).paths = paths := by
  rw [Reporter.paths_setActivity, ready.paths_eq, if_pos]
  rw [h]
  exact ready.path_mem

theorem Ready.perform (ready : session.Ready limit paths) {call : Call}
    {outcome : Except Failure (List Term)} (h : session.perform fuel call = some (after, outcome))
    : after.Ready limit paths := by
  have hsame : after.path = session.path ∧ after.limit = session.limit := by
    rcases perform_cases ready.good h with ⟨_, _, _, hafter, _⟩ | ⟨_, _, _, _, hafter, _⟩
    · rw [hafter]
      exact ⟨rfl, rfl⟩
    · rw [hafter]
      exact ⟨rfl, rfl⟩
  have hpaths : after.reporter.paths = paths := by
    cases call with
    | evaluate line number mode =>
      rcases reporter_of_evaluate h with ⟨_, _, hreporter⟩ | ⟨_, _, _, hreporter⟩
      · rw [hreporter]
        apply ready.paths_setActivity
        rfl
      · rw [hreporter]
        apply ready.paths_setActivity
        rfl
    | run mode =>
      rw [← ready.paths_eq]
      exact paths_of_run h
  constructor
  · exact perform_good ready.good h
  · rw [hsame.2]
    exact ready.limit_eq
  · exact hpaths
  · rw [hsame.1]
    exact ready.path_mem

end Session

namespace Shell

/--
React to lines one after another, also after one that leaves the shell.
-/
def feed (fuel : Nat) (shell : Shell) : List String → Option (Shell × List (Except Interruption Bool))
  | [] => some (shell, [])
  | line :: rest => do
    let (shell, result) ← shell.perform fuel line
    let (shell, results) ← shell.feed fuel rest
    return (shell, result :: results)

def commandWord (text : List Char) : String :=
  String.ofList ((Text.strip text).takeWhile InputLine.isWordChar)

/--
The text of a line that follows a colon.
-/
def afterColon? (line : String) : Option (List Char) :=
  match Text.strip line.toList with
  | ':' :: rest => some rest
  | _ => none

def bareText (line : String) : String :=
  String.ofList (Text.strip line.toList)

def leaves (line : String) : Bool :=
  match afterColon? line with
  | some rest => ["exit", "EOF"].contains (commandWord rest)
  | none => ["exit", "EOF"].contains (bareText line)

def togglesStepped (line : String) : Bool :=
  match afterColon? line with
  | some rest => commandWord rest == "step"
  | none => false

/--
Whether a line is evaluated: it is not blank and no command.
-/
def isStatement (line : String) : Bool :=
  match afterColon? line with
  | some rest =>
    !(Text.strip rest).isEmpty && (Text.strip rest).head? != some '?' &&
      !(["exit", "EOF", "help", "step"].contains (commandWord rest))
  | none => !(bareText line).isEmpty && !(InputLine.bareCommands.contains (bareText line))

inductive Reaction (fuel : Nat) (shell : Shell) (line : String) : Prop where
  | left (output : String) (hleaves : leaves line = true) (htoggles : togglesStepped line = false)
    (hstatement : isStatement line = false)
    (h : shell.perform fuel line = some ({ shell with output }, .ok true))
  | answered (output : String) (hleaves : leaves line = false) (htoggles : togglesStepped line = false)
    (hstatement : isStatement line = false)
    (h : shell.perform fuel line = some ({ shell with output }, .ok false))
  | toggled (hleaves : leaves line = false) (htoggles : togglesStepped line = true)
    (hstatement : isStatement line = false)
    (h : shell.perform fuel line = some (shell.toggleStepped, .ok false))
  | evaluated (text : String) (hleaves : leaves line = false) (htoggles : togglesStepped line = false)
    (hstatement : isStatement line = true)
    (h : shell.perform fuel line = shell.evaluate fuel text)

theorem ofCommand_question {text rest : List Char} (h : Text.strip text = '?' :: rest)
    : ∃ argument,
        InputLine.ofCommand text =
          { command := some ("help", argument), line := String.ofList ("help ".toList ++ rest) } := by
  have hword : ("help ".toList ++ rest).takeWhile InputLine.isWordChar = "help".toList := by
    simp [List.takeWhile, InputLine.isWordChar]
  simp only [InputLine.ofCommand, h, InputLine.ofCommand.split, hword, String.ofList_toList]
  exact ⟨_, rfl⟩

-- After an exclamation mark there is no command, and the word is empty.
theorem ofCommand_cases {text : List Char} (hne : Text.strip text ≠ [])
    (hmark : (Text.strip text).head? ≠ some '?')
    : (InputLine.ofCommand text).line = String.ofList (Text.strip text) ∧
      (((InputLine.ofCommand text).command = none ∧ commandWord text = "") ∨
        ∃ argument, (InputLine.ofCommand text).command = some (commandWord text, argument)) := by
  simp only [InputLine.ofCommand, commandWord]
  split
  · next h => simp [h] at hne
  · next h => simp [h] at hmark
  · next h =>
    rw [h]
    exact ⟨rfl, Or.inl ⟨rfl, rfl⟩⟩
  · exact ⟨rfl, Or.inr ⟨_, rfl⟩⟩

theorem ofString_eq (line : String)
    : InputLine.ofString line =
      match afterColon? line with
      | some rest => InputLine.ofCommand rest
      | none =>
        if InputLine.bareCommands.contains (bareText line) then
          InputLine.ofCommand (Text.strip line.toList)
        else { command := none, line := bareText line } := by
  unfold InputLine.ofString afterColon? bareText
  cases Text.strip line.toList with
  | nil => rfl
  | cons c rest =>
    by_cases hcolon : c = ':'
    · simp [hcolon]
    · simp [hcolon]

theorem reaction_of_colon (fuel : Nat) (shell : Shell) {line : String} {rest : List Char}
    (hline : afterColon? line = some rest) : Reaction fuel shell line := by
  have hinput : InputLine.ofString line = InputLine.ofCommand rest := by
    rw [ofString_eq, hline]
  by_cases hempty : Text.strip rest = []
  · apply Reaction.answered shell.output
    · simp [leaves, hline, commandWord, hempty]
    · simp [togglesStepped, hline, commandWord, hempty]
    · simp [isStatement, hline, hempty]
    · simp [perform, hinput, InputLine.ofCommand, hempty]
  by_cases hmark : (Text.strip rest).head? = some '?'
  · rcases List.head?_eq_some_iff.1 hmark with ⟨more, hmore⟩
    rcases ofCommand_question hmore with ⟨argument, hcommand⟩
    have hword : commandWord rest = "" := by
      simp [commandWord, hmore, InputLine.isWordChar]
    apply Reaction.answered (shell.print helpText).output
    · simp [leaves, hline, hword]
    · simp [togglesStepped, hline, hword]
    · simp [isStatement, hline, hmore]
    · simp [perform, hinput, hcommand, print]
  rcases ofCommand_cases hempty hmark with ⟨htext, hcommand⟩
  have hshown : (InputLine.ofCommand rest).line.isEmpty = false := by
    simp [htext, hempty]
  have hnamed : commandWord rest ≠ "" →
      ∃ argument, (InputLine.ofCommand rest).command = some (commandWord rest, argument) := by
    intro hword
    cases hcommand with
    | inl hnone => exact absurd hnone.2 hword
    | inr hsome => exact hsome
  by_cases hexit : commandWord rest = "exit"
  · rcases hnamed (by simp [hexit]) with ⟨argument, hexits⟩
    apply Reaction.left shell.output
    · simp [leaves, hline, hexit]
    · simp [togglesStepped, hline, hexit]
    · simp [isStatement, hline, hexit]
    · simp [perform, hinput, hshown, hexits, hexit]
  by_cases hend : commandWord rest = "EOF"
  · rcases hnamed (by simp [hend]) with ⟨argument, hends⟩
    apply Reaction.left (shell.print "").output
    · simp [leaves, hline, hend]
    · simp [togglesStepped, hline, hend]
    · simp [isStatement, hline, hend]
    · simp [perform, hinput, hshown, hends, hend, print]
  by_cases hhelp : commandWord rest = "help"
  · rcases hnamed (by simp [hhelp]) with ⟨argument, hhelps⟩
    apply Reaction.answered (shell.print helpText).output
    · simp [leaves, hline, hhelp]
    · simp [togglesStepped, hline, hhelp]
    · simp [isStatement, hline, hhelp]
    · simp [perform, hinput, hshown, hhelps, hhelp, print]
  by_cases hstep : commandWord rest = "step"
  · rcases hnamed (by simp [hstep]) with ⟨argument, hsteps⟩
    apply Reaction.toggled
    · simp [leaves, hline, hstep]
    · simp [togglesStepped, hline, hstep]
    · simp [isStatement, hline, hstep]
    · simp [perform, hinput, hshown, hsteps, hstep]
  apply Reaction.evaluated (InputLine.ofCommand rest).line
  · simp [leaves, hline, hexit, hend]
  · simp [togglesStepped, hline, hstep]
  · simp [isStatement, hline, hempty, hmark, hexit, hend, hhelp, hstep]
  · rcases hcommand with ⟨hnone, _⟩ | ⟨argument, hsome⟩
    · simp [perform, hinput, hshown, hnone]
    · simp [perform, hinput, hshown, hsome, hexit, hend, hhelp, hstep]

theorem reaction_of_bare (fuel : Nat) (shell : Shell) {line : String}
    (hline : afterColon? line = none) : Reaction fuel shell line := by
  have htoggles : togglesStepped line = false := by
    simp [togglesStepped, hline]
  by_cases hbare : bareText line ∈ InputLine.bareCommands
  · have hinput : InputLine.ofString line = InputLine.ofCommand (bareText line).toList := by
      rw [ofString_eq, hline]
      simp only
      rw [if_pos (by simpa using hbare), bareText, String.toList_ofList]
    have hstatement : isStatement line = false := by
      simp [isStatement, hline, hbare]
    simp only [InputLine.bareCommands, List.mem_cons, List.not_mem_nil, or_false] at hbare
    rcases hbare with hexit | hend | hhelp | hmark
    · rw [hexit] at hinput
      apply Reaction.left shell.output _ htoggles hstatement
      · simp only [perform, hinput]
        rfl
      · simp [leaves, hline, hexit]
    · rw [hend] at hinput
      apply Reaction.left (shell.print "").output _ htoggles hstatement
      · simp only [perform, hinput]
        rfl
      · simp [leaves, hline, hend]
    · rw [hhelp] at hinput
      apply Reaction.answered (shell.print helpText).output _ htoggles hstatement
      · simp only [perform, hinput]
        rfl
      · simp [leaves, hline, hhelp]
    · rw [hmark] at hinput
      apply Reaction.answered (shell.print helpText).output _ htoggles hstatement
      · simp only [perform, hinput]
        rfl
      · simp [leaves, hline, hmark]
  have hinput : InputLine.ofString line = { command := none, line := bareText line } := by
    simp [ofString_eq, hline, hbare]
  have hleaves : leaves line = false := by
    simp only [InputLine.bareCommands, List.mem_cons, not_or] at hbare
    simp [leaves, hline, hbare.1, hbare.2.1]
  cases hempty : (bareText line).isEmpty with
  | true =>
    apply Reaction.answered shell.output hleaves htoggles
    · simp [isStatement, hline, hempty]
    · simp [perform, hinput, hempty]
  | false =>
    apply Reaction.evaluated (bareText line) hleaves htoggles
    · simp [isStatement, hline, hempty, hbare]
    · simp [perform, hinput, hempty]

theorem reaction (fuel : Nat) (shell : Shell) (line : String) : Reaction fuel shell line := by
  cases hline : afterColon? line with
  | some rest => exact reaction_of_colon fuel shell hline
  | none => exact reaction_of_bare fuel shell hline

theorem exists_foldl_print (terms : List Term) (shell : Shell)
    : ∃ output, terms.foldl (fun shell term => shell.print term.render) shell =
        { shell with output } := by
  induction terms generalizing shell with
  | nil => exact ⟨shell.output, rfl⟩
  | cons term rest ih => exact ih (shell.print term.render)

/--
A shell after some lines: its session is ready, no line is pending, and line number and mode are told by
the lines.
-/
structure Intact (limit : Int) (paths lines : List String) (shell : Shell) : Prop where
  ready : shell.session.Ready limit paths
  fatal_eq : shell.session.reporter.fatal = false
  idle : shell.session.reporter.Idle
  lineNumber_eq : shell.lineNumber = lines.countP isStatement
  mode_eq : shell.mode = if lines.countP togglesStepped % 2 = 0 then .run else .stepped

variable {limit : Int} {paths lines : List String} {shell : Shell}

theorem Intact.mode_cases (intact : shell.Intact limit paths lines)
    : shell.mode = .run ∨ shell.mode = .stepped := by
  rw [intact.mode_eq]
  split
  · exact Or.inl rfl
  · exact Or.inr rfl

-- A failure is reported, since it is a mistake, and the report leaves no line pending.
theorem Intact.evaluate (intact : shell.Intact limit paths lines) (fuel : Nat) (text : String)
    : ∃ session output,
        shell.evaluate fuel text =
          some ({ shell with session, lineNumber := shell.lineNumber + 1, output }, .ok false) ∧
        session.Ready limit paths ∧ session.reporter.fatal = false ∧ session.reporter.Idle := by
  have ready := intact.ready
  rcases Session.exists_perform ready.good ready.limit_eq fuel
    (.evaluate text (some ((shell.lineNumber + 1 : Nat) : Int)) shell.mode) with
    ⟨after, outcome, hperform⟩
  have hevaluate : shell.session.evaluate fuel text (some ((shell.lineNumber + 1 : Nat) : Int))
      shell.mode = some (after, outcome) := hperform
  have hafter := ready.perform hperform
  rcases Session.reporter_of_evaluate hevaluate with
    ⟨failure, houtcome, hreporter⟩ | ⟨terms, written, houtcome, hreporter⟩
  · rw [houtcome] at hevaluate
    have hlimit : shell.session.limit = (some limit).map .steps := ready.limit_eq
    rcases Session.evaluate_reported ready.good hlimit intact.mode_cases hevaluate with
      ⟨diagnostic, hreported⟩
    have hfatal : after.reporter.fatal = false := by
      rw [hreporter]
      exact intact.fatal_eq
    have hguard : ∃ report, after.reporter.guard failure.interruption =
        ((after.reporter.write report).clear, none) := by
      rw [Reporter.guard_of_reported hreported, hfatal]
      exact ⟨_, rfl⟩
    rcases hguard with ⟨report, hguard⟩
    refine ⟨{ after with reporter := (after.reporter.write report).clear }, shell.output, ?_, ?_, ?_, ?_⟩
    · simp only [Shell.evaluate, hevaluate, bind, Option.bind, hguard, pure]
    · constructor
      · exact hafter.good
      · exact hafter.limit_eq
      · rw [← hafter.paths_eq]
        apply Reporter.paths_clear
      · exact hafter.path_mem
    · exact hfatal
    · apply Reporter.idle_clear
  · rcases exists_foldl_print terms
      { shell with session := after, lineNumber := shell.lineNumber + 1 } with ⟨output, hprint⟩
    refine ⟨after, output, ?_, hafter, ?_, ?_⟩
    · simp only [Shell.evaluate, hevaluate, houtcome, bind, Option.bind, pure, hprint]
    · rw [hreporter]
      exact intact.fatal_eq
    · rw [hreporter]
      exact intact.idle.register shell.session.path

theorem Intact.perform (intact : shell.Intact limit paths lines) (fuel : Nat) (line : String)
    : ∃ after, shell.perform fuel line = some (after, .ok (leaves line)) ∧
        after.Intact limit paths (lines ++ [line]) := by
  cases reaction fuel shell line with
  | left output hleaves htoggles hstatement h =>
    refine ⟨{ shell with output }, by rw [h, hleaves], intact.ready, intact.fatal_eq, intact.idle, ?_, ?_⟩
    · simp [intact.lineNumber_eq, hstatement]
    · simp [intact.mode_eq, htoggles]
  | answered output hleaves htoggles hstatement h =>
    refine ⟨{ shell with output }, by rw [h, hleaves], intact.ready, intact.fatal_eq, intact.idle, ?_, ?_⟩
    · simp [intact.lineNumber_eq, hstatement]
    · simp [intact.mode_eq, htoggles]
  | toggled hleaves htoggles hstatement h =>
    rw [h, hleaves]
    refine ⟨shell.toggleStepped, rfl, ?_⟩
    have hmode := intact.mode_eq
    unfold toggleStepped
    split
    · next hstepped =>
      refine ⟨intact.ready, intact.fatal_eq, intact.idle, ?_, ?_⟩
      · simp [print, intact.lineNumber_eq, hstatement]
      · rw [hstepped] at hmode
        split at hmode
        · simp at hmode
        · simp only [print, List.countP_append, List.countP_singleton, htoggles, if_true]
          rw [if_pos (by omega)]
    · next hother =>
      refine ⟨intact.ready, intact.fatal_eq, intact.idle, ?_, ?_⟩
      · simp [print, intact.lineNumber_eq, hstatement]
      · split at hmode
        · simp only [print, List.countP_append, List.countP_singleton, htoggles, if_true]
          rw [if_neg (by omega)]
        · exact absurd hmode hother
  | evaluated text hleaves htoggles hstatement h =>
    rw [h, hleaves]
    rcases intact.evaluate fuel text with ⟨session, output, hevaluate, ready, hfatal, idle⟩
    rw [hevaluate]
    refine ⟨_, rfl, ready, hfatal, idle, ?_, ?_⟩
    · simp [intact.lineNumber_eq, hstatement]
    · simp [intact.mode_eq, htoggles]

theorem Intact.feed (intact : shell.Intact limit paths lines) (fuel : Nat) (more : List String)
    : ∃ final, shell.feed fuel more = some (final, more.map (fun line => .ok (leaves line))) ∧
        final.Intact limit paths (lines ++ more) := by
  induction more generalizing shell lines with
  | nil => exact ⟨shell, rfl, by simpa using intact⟩
  | cons line rest ih =>
    rcases intact.perform fuel line with ⟨after, hperform, hafter⟩
    rcases ih hafter with ⟨final, hfeed, hfinal⟩
    refine ⟨final, ?_, by simpa using hfinal⟩
    simp [Shell.feed, hperform, hfeed]

end Shell

theorem Run.ready {session final : Session} {entries : List Entry} {limit : Int} {paths : List String}
    (run : Run session entries final) (ready : session.Ready limit paths)
    : final.Ready limit paths := by
  induction run with
  | nil session => exact ready
  | cons h _ ih =>
    apply ih
    exact ready.perform h

theorem Session.ready_of_load {files : String → FileEntry} {reporter : Reporter} {path : Option String}
    {form order : String} {limit : Int} {session loaded : Session} {requireMain : Bool}
    (hcreate : Session.create files reporter path form order (some (.steps limit)) = .ok session)
    (hload : session.load requireMain = (loaded, .ok ()))
    : loaded.Ready limit (reporter.register loaded.path).paths := by
  have opened := opened_of_create hcreate
  have good := good_of_create hcreate hload
  have hsame : loaded = { session with book := loaded.book } := by
    unfold load at hload
    split at hload
    · simp at hload
    · simp only [Prod.mk.injEq] at hload
      rw [← hload.1]
  rw [hsame] at good ⊢
  refine ⟨good, opened.limit_eq, ?_, ?_⟩
  · rw [opened.reporter_eq]
  · simp only [Reporter.register]
    rw [Reporter.paths_setActivity]
    split
    · next hmem => exact hmem
    · simp

/--
A shell on a session that was loaded outlives any lines, if there is a limit and errors are not fatal. Each
line is answered, and nothing but its text decides whether it leaves the shell. No line stays pending, the
files stay the same, the lines that were evaluated are counted, every second command for steps turns them
off again, and the book stays good.
-/
theorem shell_outlives_lines {files : String → FileEntry} {reporter : Reporter} {path : Option String}
    {form order : String} {limit : Int} {session loaded last : Session} {entries : List Entry}
    (hcreate : Session.create files reporter path form order (some (.steps limit)) = .ok session)
    (hload : session.load false = (loaded, .ok ())) (run : Run loaded entries last)
    (idle : last.reporter.Idle) (fuel : Nat) (lines : List String)
    : let opened := { last with reporter := { last.reporter with fatal := false } }
      ∃ final,
        (Shell.new opened).feed fuel lines =
          some (final, lines.map (fun line => .ok (Shell.leaves line))) ∧
        final.session.reporter.Idle ∧ final.session.reporter.paths = last.reporter.paths ∧
        final.lineNumber = lines.countP Shell.isStatement ∧
        final.mode = (if lines.countP Shell.togglesStepped % 2 = 0 then .run else .stepped) ∧
        final.session.book.Good := by
  intro opened
  have ready := run.ready (Session.ready_of_load hcreate hload)
  have intact : (Shell.new opened).Intact limit last.reporter.paths [] := by
    refine ⟨⟨ready.good, ready.limit_eq, rfl, ?_⟩, rfl, idle, rfl, rfl⟩
    rw [ready.paths_eq]
    exact ready.path_mem
  rcases intact.feed fuel lines with ⟨final, hfeed, hfinal⟩
  exact ⟨final, hfeed, hfinal.idle, hfinal.ready.paths_eq, hfinal.lineNumber_eq, hfinal.mode_eq,
    hfinal.ready.good⟩

theorem shell_outlives_lines_unbound
    : let session : Session :=
        { path := "<in>", form := .normal, order := .normal, limit := some (.steps 1)
          book := Book.empty
          results := []
          reporter := (Reporter.new true .plain).register "<in>" }
      let last : Session :=
        { session with book := Book.ofList [{ name := "I", body := .lam (some "x") (.var "x") }] }
      let opened := { last with reporter := { last.reporter with fatal := false } }
      let lines := ["(I y)", " :step ", ":", "(I I)", "((I I) I)", "?", ": exit now", "EOF"]
      Session.create (fun _ => .missing) (Reporter.new true .plain) none "nf" "normal"
          (some (.steps 1)) = .ok session ∧
        Run session [{ call := .evaluate "I = λx x" none .run, outcome := .ok [] }] last ∧
        ∃ final,
          (Shell.new opened).feed 0 lines =
            some (final, [.ok false, .ok false, .ok false, .ok false, .ok false, .ok false, .ok true,
              .ok true]) ∧
          final.session.reporter.Idle ∧ final.lineNumber = 3 ∧ final.mode = .stepped ∧
          final.session.book.Good := by
  intro session last opened lines
  have hcreate : Session.create (fun _ => .missing) (Reporter.new true .plain) none "nf" "normal"
      (some (.steps 1)) = .ok session := by cbv
  have hload : session.load false = (session, .ok ()) := by cbv
  have hperform : session.perform 0 (.evaluate "I = λx x" none .run) = some (last, .ok []) := by cbv
  have run : Run session [{ call := .evaluate "I = λx x" none .run, outcome := .ok [] }] last :=
    .cons hperform (.nil last)
  have idle : last.reporter.Idle := by decide
  rcases shell_outlives_lines hcreate hload run idle 0 lines with
    ⟨final, hfeed, hidle, _, hnumber, hmode, good⟩
  have hleaves : lines.map (fun line => (.ok (Shell.leaves line) : Except Interruption Bool)) =
      [.ok false, .ok false, .ok false, .ok false, .ok false, .ok false, .ok true, .ok true] := by cbv
  have hstatements : lines.countP Shell.isStatement = 3 := by cbv
  have htoggles : lines.countP Shell.togglesStepped = 1 := by cbv
  rw [hleaves] at hfeed
  rw [hstatements] at hnumber
  rw [htoggles] at hmode
  exact ⟨hcreate, run, final, hfeed, hidle, hnumber, hmode, good⟩

end NamedLambda
