import NamedLambda.CommandLine.Argument

/-!
This module contains the reading of a command line from left to right.
-/

namespace NamedLambda.CommandLine

/--
A command line as far as it has been read. The path is missing, or given, or given without a value. Form
and order are given, or given without a value.
-/
structure Draft where
  task : Option Task
  path : Option (Option String)
  form : Option String
  order : Option String
  limit : Option Limit
  extras : List String
  deriving DecidableEq, Repr, Inhabited

namespace Draft

def start : Draft where
  task := none
  path := none
  form := some "nf"
  order := some "normal"
  limit := none
  extras := []

def addExtra (draft : Draft) (text : String) : Draft :=
  { draft with extras := draft.extras ++ [text] }

def setFlag (draft : Draft) (flag : Flag) (text : String) : Except Refusal Draft :=
  -- The value `--` is dropped, which leaves the option without one.
  let isBlank := text = "--"
  match flag with
  | .help => .error .help
  | .form =>
    if isBlank then .ok { draft with form := none }
    else if Form.names.contains text then .ok { draft with form := text }
    else .error (.mistake (.invalidChoice flag.title text Form.names))
  | .order =>
    if isBlank then .ok { draft with order := none }
    else if Order.names.contains text then .ok { draft with order := text }
    else .error (.mistake (.invalidChoice flag.title text Order.names))
  | .limit =>
    if isBlank then .ok { draft with limit := some .blank }
    else
      match Text.integer? text with
      | some count => .ok { draft with limit := some (.steps count) }
      | none => .error (.mistake (.invalidInteger flag text))

def isOpen (draft : Draft) : Bool :=
  draft.task.isNone || draft.path.isNone

def setPositional (draft : Draft) (text : Option String) : Except Refusal Draft :=
  match draft.task, text with
  | none, some text =>
    match Task.ofName? text with
    | some task => .ok { draft with task := some task }
    | none => .error (.mistake (.invalidChoice "mode" text Task.names))
  | none, none => .ok draft
  | some _, text => .ok { draft with path := some text }

def readHelp (rest : List Argument) : List Char → Refusal
  | [] => .help
  | c :: more =>
    match Flag.ofLetter? c with
    | none => ignored (c :: more)
    | some .help => readHelp rest more
    -- An option that takes a value has it from the rest of the argument or from the next one.
    | some flag =>
      match more, rest with
      | [], .value _ :: _ => .help
      | [], _ => .mistake (.noValue flag)
      | _ :: _, _ => .help
where
  ignored (text : List Char) : Refusal :=
    .mistake (.surplusValue .help (String.ofList text))

inductive Place where
  | afterPositional
  | afterSeparator
  | elsewhere
  deriving DecidableEq, Repr, Inhabited

def read (draft : Draft) (place : Place) : List Argument → Except Refusal Draft
  | [] => .ok draft
  | .value text :: rest => do
    if draft.isOpen then
      let text := if text = "--" && place != .afterSeparator then none else some text
      (← draft.setPositional text).read .afterPositional rest
    else (draft.addExtra text).read .elsewhere rest
  | .separator :: rest =>
    match place with
    | .afterPositional => draft.read .elsewhere rest
    | _ =>
      if draft.isOpen then draft.read .afterSeparator rest
      else (draft.addExtra "--").read .elsewhere rest
  | .unknown text :: rest => (draft.addExtra text).read .elsewhere rest
  | .letter .help ['='] :: _ => .error (readHelp.ignored [])
  | .letter .help ('=' :: more) :: rest => .error (readHelp rest more)
  | .letter .help more :: rest => .error (readHelp rest more)
  | .word .help none :: _ => .error .help
  | .word .help (some text) :: _ => .error (readHelp.ignored text)
  | .letter flag [] :: .value text :: rest => do (← draft.setFlag flag text).read .elsewhere rest
  | .letter flag [] :: _ => .error (.mistake (.noValue flag))
  | .letter flag ('=' :: text) :: rest => do
    (← draft.setFlag flag (String.ofList text)).read .elsewhere rest
  | .letter flag text :: rest => do
    (← draft.setFlag flag (String.ofList text)).read .elsewhere rest
  | .word flag none :: .value text :: rest => do (← draft.setFlag flag text).read .elsewhere rest
  | .word flag none :: _ => .error (.mistake (.noValue flag))
  | .word flag (some text) :: rest => do
    (← draft.setFlag flag (String.ofList text)).read .elsewhere rest

def finish (draft : Draft) : Except Refusal Options :=
  match draft.task, draft.path with
  | some task, some path =>
    if draft.extras.isEmpty then
      .ok { task, path, form := draft.form, order := draft.order, limit := draft.limit }
    else .error (.mistake (.unrecognized draft.extras))
  | task, path =>
    let missing := (if task.isNone then ["mode"] else []) ++ (if path.isNone then ["path"] else [])
    .error (.mistake (.missing missing))

end Draft

def parse (arguments : List String) : Except Refusal Options := do
  let arguments ← Argument.ofStrings arguments
  (← Draft.start.read .elsewhere arguments).finish

end NamedLambda.CommandLine
