import NamedLambda.Proofs.Reports

/-!
This module contains messages as templates. A message is written as a template by doubling the braces in
its text and leaving an empty field for every expression. Filled with the expressions it is the message
again, whatever they contain, so that what is said of a failure is what its template says.
-/

namespace NamedLambda

open Text (Paint Value)

namespace Text.Template

def escape (text : List Char) : List Char :=
  text.flatMap fun c => if c = '\x7b' ∨ c = '\x7d' then [c, c] else [c]

theorem pieces_escape (text rest : List Char)
    : pieces .inText (escape text ++ rest) =
      text.map (fun c => .ok (.literal c)) ++ pieces .inText rest := by
  induction text with
  | nil => rfl
  | cons c text ih =>
    have hcons : escape (c :: text) =
        (if c = '\x7b' ∨ c = '\x7d' then [c, c] else [c]) ++ escape text := by
      simp [escape]
    rw [hcons, List.map_cons, List.cons_append, ← ih]
    by_cases hbrace : c = '\x7b' ∨ c = '\x7d'
    · simp [hbrace, pieces, Place.next]
    · rw [not_or] at hbrace
      simp [hbrace, pieces, Place.next]

def emptyField : Field where
  name := []
  conversion := none
  layout := []

theorem pieces_emptyField (rest : List Char)
    : pieces .inText ('\x7b' :: '\x7d' :: rest) = .ok (.field emptyField) :: pieces .inText rest := by
  simp [pieces, Place.next, Place.nextInName, emptyField]

theorem arrange_nil (value : Value) : arrange [] value = .ok value.shown := by
  have hlayout : Layout.parse [] =
      .ok { fill := ' ', alignment := .left, width := none, precision := none } := by rfl
  cases value with
  | text characters => simp [arrange, hlayout, Layout.apply, Value.shown]
  | _ => rfl

/--
So far `count` fields without a name were met, and no others.
-/
inductive Numbering.Counts : Numbering → Nat → Prop where
  | unknown : Counts .unknown 0
  | automatic (next : Nat) : Counts (.automatic next) next

section

variable {numbering : Numbering} {arguments : List String}
  {expand : Numbering → List Char → Except TemplateError (List Char × Numbering)}

theorem value_emptyField {count : Nat} {argument : String} (h : numbering.Counts count)
    (hargument : arguments[count]? = some argument)
    : emptyField.value arguments numbering = .ok (.ofString argument, .automatic (count + 1)) := by
  have hnumber : numbering.number [] = .ok (count, .automatic (count + 1)) := by
    cases h with
    | unknown => rfl
    | automatic next => rfl
  simp [Field.value, emptyField, hnumber, hargument, selectors, SelectorPlace.atEnd, select, convert,
    bind, Except.bind, pure, Except.pure]

theorem fillPieces_literals (text : List Char) (rest : List (Except TemplateError Piece))
    : fillPieces arguments expand numbering (text.map (fun c => .ok (.literal c)) ++ rest) =
      (fillPieces arguments expand numbering rest).map
        (fun filled => (text ++ filled.1, filled.2)) := by
  induction text with
  | nil => cases hrest : fillPieces arguments expand numbering rest <;> simp [hrest, Except.map]
  | cons c text ih =>
    simp only [List.map_cons, List.cons_append, fillPieces, ih, bind, Except.bind, pure, Except.pure]
    cases fillPieces arguments expand numbering rest <;> rfl

theorem fillPieces_emptyField {count : Nat} {argument : String} (h : numbering.Counts count)
    (hargument : arguments[count]? = some argument) (rest : List (Except TemplateError Piece))
    : fillPieces arguments expand numbering (.ok (.field emptyField) :: rest) =
      (fillPieces arguments expand (.automatic (count + 1)) rest).map
        (fun filled => (argument.toList ++ filled.1, filled.2)) := by
  have hlayout : emptyField.layout.contains '\x7b' = false := by rfl
  have hshown : arrange emptyField.layout (.ofString argument) = .ok argument.toList :=
    arrange_nil (.ofString argument)
  simp only [fillPieces, value_emptyField h hargument, hlayout, hshown, bind, Except.bind, pure,
    Except.pure, Bool.false_eq_true, if_false]
  cases fillPieces arguments expand (.automatic (count + 1)) rest <;> rfl

end

end Text.Template

namespace Span

def template : Span → List Char
  | .text content => Text.Template.escape content.toList
  | .expression _ => ['\x7b', '\x7d']
  | .made plain _ => Text.Template.escape plain.toList

def expression? : Span → Option String
  | .expression content => some content
  | _ => none

def shown (mark : String → String) : Span → String
  | .text content => content
  | .expression content => mark content
  | .made plain _ => plain

end Span

namespace Text.Template

def ofMessage (message : List Span) : String :=
  String.ofList (message.flatMap Span.template)

-- The arguments from `count` on are those for the fields of this part of the message.
theorem fillPieces_ofMessage {arguments : List String}
    {expand : Numbering → List Char → Except TemplateError (List Char × Numbering)}
    {mark : String → String} {message : List Span} {more : List String} {numbering : Numbering}
    {count : Nat} (h : numbering.Counts count)
    (harguments : arguments.drop count = (message.filterMap Span.expression?).map mark ++ more)
    : ∃ last, fillPieces arguments expand numbering
        (pieces .inText (message.flatMap Span.template)) =
          .ok (message.flatMap (fun span => (span.shown mark).toList), last) := by
  induction message generalizing numbering count with
  | nil => exact ⟨numbering, rfl⟩
  | cons span message ih =>
    cases span with
    | text content | made content _ =>
      rcases ih h harguments with ⟨last, hlast⟩
      refine ⟨last, ?_⟩
      rw [List.flatMap_cons, Span.template, pieces_escape, fillPieces_literals, hlast]
      rfl
    | expression content =>
      have hargument : arguments[count]? = some (mark content) := by
        rw [← List.head?_drop, harguments]
        rfl
      have hrest : arguments.drop (count + 1) =
          (message.filterMap Span.expression?).map mark ++ more := by
        rw [← List.tail_drop, harguments]
        rfl
      rcases ih (.automatic (count + 1)) hrest with ⟨last, hlast⟩
      refine ⟨last, ?_⟩
      rw [List.flatMap_cons, Span.template, List.cons_append, List.cons_append, List.nil_append,
        pieces_emptyField, fillPieces_emptyField h hargument, hlast]
      rfl

/--
A message is what its template is filled to. Expressions that no field is left for are not shown.
-/
theorem fill_ofMessage (mark : String → String) (message : List Span) (more : List String)
    : fill (ofMessage message) ((message.filterMap Span.expression?).map mark ++ more) =
      .ok (String.join (message.map (Span.shown mark))) := by
  have hfilled : ∃ last,
      fillNested ((message.filterMap Span.expression?).map mark ++ more) 2 .unknown
        (message.flatMap Span.template) =
          .ok (message.flatMap (fun span => (span.shown mark).toList), last) :=
    fillPieces_ofMessage .unknown rfl
  have htext : String.ofList (message.flatMap (fun span => (span.shown mark).toList)) =
      String.join (message.map (Span.shown mark)) := by
    rw [← String.toList_inj, String.toList_ofList, String.toList_join, List.flatMap_map]
  rcases hfilled with ⟨last, hlast⟩
  rw [fill, ofMessage, String.toList_ofList, hlast, ← htext]
  rfl

example : fill "unbound variable '\x7b\x7d'" ["\x7b0\x7d"] = .ok "unbound variable '\x7b0\x7d'" := by
  rfl

end Text.Template

namespace Diagnostic

variable {paint : Paint} {template expression : String} {expressions more extra : List String}
  {start stop : Int} {shown internal : Bool}

theorem painted_eq (paint : Paint) {diagnostic : Diagnostic}
    (hmade : ∀ plain painted, Span.made plain painted ∉ diagnostic.message)
    : diagnostic.painted paint = String.join (diagnostic.message.map (Span.shown paint.bold)) := by
  unfold painted
  congr 1
  apply List.map_congr_left
  intro span hspan
  cases span with
  | text content => rfl
  | expression content => rfl
  | made plain painted => exact absurd hspan (hmade plain painted)

theorem ofTemplate_eq_ok_iff (diagnostic : Diagnostic)
    : ofTemplate paint template expressions start stop shown internal = .ok diagnostic ↔
      ∃ expression more plain painted, expressions = expression :: more ∧
        Text.Template.fill template expressions = .ok plain ∧
        Text.Template.fill template (expressions.map paint.bold) = .ok painted ∧
        diagnostic =
          { message := [.made plain painted], expression, start
            stop := if stop = -1 then expression.length else stop
            shown, internal } := by
  simp only [ofTemplate, bind, Except.bind, Except.mapError, pure, Except.pure]
  cases hplain : Text.Template.fill template expressions with
  | error error => simp
  | ok plain =>
    cases hpainted : Text.Template.fill template (expressions.map paint.bold) with
    | error error => simp
    | ok painted =>
      cases expressions with
      | nil => simp [throw, throwThe, MonadExceptOf.throw]
      | cons expression more => simp [eq_comm]

theorem ofTemplate_ofMessage {message : List Span}
    (hmade : ∀ plain painted, Span.made plain painted ∉ message)
    (hexpressions : message.filterMap Span.expression? ++ extra = expression :: more)
    (paint : Paint) (shown internal : Bool)
    : ofTemplate paint (Text.Template.ofMessage message) (expression :: more) 0 (-1) shown internal =
      .ok
        { about message expression with
          message := [.made (about message expression).text ((about message expression).painted paint)]
          shown, internal } := by
  have hplain := Text.Template.fill_ofMessage id message extra
  have hpainted := Text.Template.fill_ofMessage paint.bold message (extra.map paint.bold)
  rw [List.map_id, hexpressions] at hplain
  rw [← List.map_append, hexpressions] at hpainted
  rw [ofTemplate_eq_ok_iff]
  refine ⟨expression, more, _, _, rfl, hplain, hpainted, ?_⟩
  rw [painted_eq paint hmade]
  rfl

/--
The message of a diagnostic is what a template makes of expressions. It is about the first one of them,
unless it is to be shown with a place of its own.
-/
def MadeFrom (template : String) (expressions : List String) (diagnostic : Diagnostic) : Prop :=
  ∀ paint, ∃ expression start stop,
    ofTemplate paint template expressions 0 (-1) diagnostic.shown diagnostic.internal =
      .ok
        { diagnostic with
          message := [.made diagnostic.text (diagnostic.painted paint)], expression, start, stop } ∧
    (diagnostic.shown = false →
      expression = diagnostic.expression ∧ start = diagnostic.start ∧ stop = diagnostic.stop)

end Diagnostic

def Failure.template? : Failure → Option (String × List String)
  | syntaxError error =>
    some ("\x7b\x7d", ["\n".intercalate (error.issues.map Source.Issue.render)])
  | missingMain => some ("program doesn't have 'main' definition", [""])
  | unbound name => some ("unbound variable '\x7b\x7d'", [name])
  | stepLimit limit => some ("reduction did not stop within \x7b\x7d steps", [toString limit])
  | notImplemented feature name =>
    some ("\x7b\x7d '\x7b\x7d' is not implemented", [feature, name])
  | unreadable path => some ("'\x7b\x7d' could not be opened", [path])
  | unknownMode name => some ("unknown mode '\x7b\x7d'", [name])
  | fault _ => none

theorem Failure.exists_madeFrom_of_hidden {failure : Failure} {message : List Span}
    {expression : String} {more : List String} (extra : List String)
    (htemplate : failure.template? = some (Text.Template.ofMessage message, expression :: more))
    (hmade : ∀ plain painted, Span.made plain painted ∉ message)
    (hexpressions : message.filterMap Span.expression? ++ extra = expression :: more)
    : ∃ template expressions, failure.template? = some (template, expressions) ∧
        (Diagnostic.about message expression).hidden.MadeFrom template expressions := by
  refine ⟨_, _, htemplate, ?_⟩
  intro paint
  exact ⟨_, _, _, Diagnostic.ofTemplate_ofMessage hmade hexpressions paint false false,
    fun _ => ⟨rfl, rfl, rfl⟩⟩

theorem Source.SyntaxError.diagnostic_cases {error : SyntaxError} {diagnostic : Diagnostic}
    (h : error.diagnostic = .ok diagnostic)
    : let text := "\n".intercalate (error.issues.map Issue.render)
      error.diagnostic = .ok (Diagnostic.about [.expression text] text).hidden ∨
      ∃ expression start stop, diagnostic =
        { Diagnostic.about [.expression text] text with expression, start, stop } := by
  intro text
  unfold SyntaxError.diagnostic at h ⊢
  split at h
  · exact Or.inl rfl
  · split at h
    · simp at h
    · split at h
      · simp at h
      · exact Or.inr ⟨_, _, _, (Except.ok.inj h).symm⟩

/--
What is said of a failure is what its template makes of its expressions, whatever these are.
-/
theorem Failure.exists_madeFrom {failure : Failure} {diagnostic : Diagnostic}
    (h : failure.diagnostic = .ok diagnostic)
    : ∃ template expressions, failure.template? = some (template, expressions) ∧
        diagnostic.MadeFrom template expressions := by
  cases failure with
  | fault cause => simp [Failure.diagnostic] at h
  | syntaxError error =>
    rcases error.diagnostic_cases h with heq | ⟨place, start, stop, heq⟩
    · rw [← Except.ok.inj (heq.symm.trans h)]
      exact exists_madeFrom_of_hidden [] rfl (by simp) rfl
    · let text := "\n".intercalate (error.issues.map Source.Issue.render)
      have hmessage : [Span.expression text].filterMap Span.expression? ++ [] = [text] := by rfl
      refine ⟨Text.Template.ofMessage [.expression text], [text], rfl, ?_⟩
      intro paint
      rw [heq]
      exact ⟨_, _, _, Diagnostic.ofTemplate_ofMessage (by simp) hmessage paint true false,
        by simp [Diagnostic.about]⟩
  | missingMain =>
    rw [← Except.ok.inj h]
    exact exists_madeFrom_of_hidden [""] rfl (by simp) rfl
  | unbound name | stepLimit limit | notImplemented feature name | unreadable path
  | unknownMode name =>
    rw [← Except.ok.inj h]
    exact exists_madeFrom_of_hidden [] rfl (by simp) rfl

theorem Reporter.ofTemplate_faultDiagnostic (cause : Fault) (paint : Paint)
    : Diagnostic.ofTemplate paint "unknown error: '\x7b\x7d'" [cause.kind ++ ": " ++ cause.text] 0 (-1)
        true true =
      .ok
        { faultDiagnostic cause with
          message :=
            [.made (faultDiagnostic cause).text ((faultDiagnostic cause).painted paint)] } := by
  let text := cause.kind ++ ": " ++ cause.text
  let message : List Span := [.text "unknown error: '", .expression text, .text "'"]
  have hmessage : message.filterMap Span.expression? ++ [] = [text] := by rfl
  have htemplate : Text.Template.ofMessage message = "unknown error: '\x7b\x7d'" := by rfl
  rw [← htemplate]
  exact Diagnostic.ofTemplate_ofMessage (by simp [message]) hmessage paint true true

section

variable {paint : Paint} {template : String} {expressions : List String} {shown internal : Bool}
  {diagnostic : Diagnostic}

/--
A diagnostic that is made from a template without a place can always be shown: what is marked is the
whole of its expression.
-/
theorem Diagnostic.exists_excerpt_of_ofTemplate
    (h : ofTemplate paint template expressions 0 (-1) shown internal = .ok diagnostic)
    (hshown : diagnostic.hasExcerpt = true) (other : Paint) (colour : Text.Colour)
    : ∃ excerpt, diagnostic.excerpt other colour = .ok excerpt := by
  rcases (ofTemplate_eq_ok_iff diagnostic).1 h with ⟨expression, _, _, _, _, _, _, heq⟩
  have hlength : 0 < diagnostic.expression.length := by
    apply Nat.pos_of_ne_zero
    intro hzero
    simp [hasExcerpt, String.length_eq_zero_iff.1 hzero] at hshown
  have hfits : diagnostic.Fits := by
    rw [heq] at hlength ⊢
    simp only at hlength
    constructor
    · simp
    · simp
    · simp only [if_true]
      omega
    · simp only [if_true]
      omega
  exact ⟨_, hfits.excerpt_eq other colour⟩

theorem Reporter.warn_of_ofTemplate {reporter : Reporter}
    (h : Diagnostic.ofTemplate paint template expressions 0 (-1) shown internal = .ok diagnostic)
    : reporter.warn diagnostic =
      (reporter.write (reporter.warning (diagnostic.painted reporter.paint) ++
        diagnostic.below reporter.paint .magenta), none) := by
  apply warn_eq
  intro hshown
  exact Diagnostic.exists_excerpt_of_ofTemplate h hshown reporter.paint .magenta

end

namespace Text

theorem Category.isSome_operation?_of_object (kind : Category) {operation : Operation}
    (h : operation ∈ object.own) : (kind.operation? operation.name).isSome = true := by
  rw [operation?, List.find?_isSome]
  refine ⟨operation, ?_, beq_self_eq_true _⟩
  cases kind with
  | object => exact List.mem_append_left _ h
  | _ => exact List.mem_append_right _ h

theorem Value.isSome_attribute?_of_object (value : Value) {operation : Operation}
    (h : operation ∈ Category.object.own) : (value.attribute? operation.name).isSome = true := by
  have hoperation := Category.isSome_operation?_of_object value.belongsTo h
  simp [attribute?, hoperation]

end Text

end NamedLambda
