import NamedLambda.Text.Layout
import NamedLambda.Text.Value

/-!
This module contains message templates: text with fields between braces, into which expressions are put.
Any template can be warned or reported with, not only those of the failures of a session. A field names
its expression by a number, or has no name, and then the fields are numbered from left to right. After the
name, an attribute of the expression can be selected by its name after a point, and a character by its
index in brackets; after an exclamation mark comes a conversion, and after a colon a layout, which can
have fields of its own. A doubled brace stands for itself.
-/

namespace NamedLambda.Text

inductive TemplateError where
  | lone (brace : Char)
  | nestedField
  | unclosedField
  | noConversion
  | afterConversion
  | unclosedLayout
  | automaticToManual
  | manualToAutomatic
  | tooManyDigits
  | missingArgument (index : Nat)
  | unknownField (name : String)
  | emptySelector
  | afterSelector
  | unclosedSelector
  | unknownAttribute (holder : Value) (name : String)
  | missingItem (container : Category)
  | keyedItem (container : Category)
  | noItems (holder : Value)
  | unknownConversion (conversion : Char)
  | tooDeep
  | layout (error : LayoutError)
  | noLayout (kind : Category)
  | tooWide
  deriving DecidableEq, Repr, Inhabited

namespace TemplateError

def kind : TemplateError → String
  | missingArgument _ => "IndexError"
  | missingItem _ => "IndexError"
  | unknownField _ => "KeyError"
  | unknownAttribute _ _ => "AttributeError"
  | keyedItem _ => "TypeError"
  | noItems _ => "TypeError"
  | noLayout _ => "TypeError"
  | tooWide => "MemoryError"
  | _ => "ValueError"

def message : TemplateError → String
  | lone brace => "Single '" ++ String.singleton brace ++ "' encountered in format string"
  | nestedField => "unexpected '\x7b' in field name"
  | unclosedField => "expected '\x7d' before end of string"
  | noConversion => "end of string while looking for conversion specifier"
  | afterConversion => "expected ':' after conversion specifier"
  | unclosedLayout => "unmatched '\x7b' in format spec"
  | automaticToManual =>
    "cannot switch from automatic field numbering to manual field specification"
  | manualToAutomatic =>
    "cannot switch from manual field specification to automatic field numbering"
  | tooManyDigits => "Too many decimal digits in format string"
  | missingArgument index =>
    "Replacement index " ++ toString index ++ " out of range for positional args tuple"
  | unknownField name => quote name
  | emptySelector => "Empty attribute in format string"
  | afterSelector => "Only '.' or '[' may follow ']' in format field specifier"
  | unclosedSelector => "Missing ']' in format string"
  | unknownAttribute (.category kind) name =>
    "type object '" ++ kind.name ++ "' has no attribute '" ++ name ++ "'"
  | unknownAttribute holder name =>
    "'" ++ holder.belongsTo.name ++ "' object has no attribute '" ++ name ++ "'"
  | missingItem .text => "string index out of range"
  | missingItem container => container.name ++ " index out of range"
  | keyedItem .text => "string indices must be integers, not 'str'"
  | keyedItem container => container.name ++ " indices must be integers or slices, not str"
  | noItems (.category kind) => "type '" ++ kind.name ++ "' is not subscriptable"
  | noItems holder => "'" ++ holder.belongsTo.name ++ "' object is not subscriptable"
  | unknownConversion conversion => "Unknown conversion specifier " ++ nameChar 126 conversion
  | tooDeep => "Max string recursion exceeded"
  | layout error => error.message
  | noLayout kind => "unsupported format string passed to " ++ kind.name ++ ".__format__"
  | tooWide => ""

end TemplateError

namespace Template

structure Field where
  name : List Char
  conversion : Option Char
  layout : List Char
  deriving DecidableEq, Repr, Inhabited

inductive Piece where
  | literal (c : Char)
  | field (field : Field)
  deriving DecidableEq, Repr, Inhabited

/--
Where the reader of a template stands: in plain text, after a brace that may be doubled, or in a part
of a field, of which the characters so far are kept, the last one first. `depth` is the number of braces
that are open within a layout.
-/
inductive Place where
  | inText
  | afterBrace (brace : Char)
  | inName (read : List Char)
  | inSelector (read : List Char)
  | beforeConversion (name : List Char)
  | afterConversion (name : List Char) (conversion : Char)
  | inLayout (name : List Char) (conversion : Option Char) (read : List Char) (depth : Nat)
  deriving DecidableEq, Repr, Inhabited

namespace Place

def nextInName (read : List Char) (c : Char) : Except TemplateError (Option Piece × Place) :=
  if c = '\x7b' then .error .nestedField
  else if c = '\x7d' then
    .ok (some (.field { name := read.reverse, conversion := none, layout := [] }), inText)
  else if c = ':' then .ok (none, inLayout read.reverse none [] 0)
  else if c = '!' then .ok (none, beforeConversion read.reverse)
  else if c = '[' then .ok (none, inSelector (c :: read))
  else .ok (none, inName (c :: read))

def next (place : Place) (c : Char) : Except TemplateError (Option Piece × Place) :=
  match place with
  | inText =>
    .ok (if c = '\x7b' || c = '\x7d' then (none, afterBrace c) else (some (.literal c), inText))
  | afterBrace brace =>
    if c = brace then .ok (some (.literal c), inText)
    else if brace = '\x7d' then .error (.lone brace)
    else nextInName [] c
  | inName read => nextInName read c
  | inSelector read => .ok (none, if c = ']' then inName (c :: read) else inSelector (c :: read))
  | beforeConversion name => .ok (none, afterConversion name c)
  | afterConversion name conversion =>
    if c = '\x7d' then .ok (some (.field { name, conversion, layout := [] }), inText)
    else if c = ':' then .ok (none, inLayout name conversion [] 0)
    else .error .afterConversion
  | inLayout name conversion read depth =>
    if c = '\x7b' then .ok (none, inLayout name conversion (c :: read) (depth + 1))
    else if c = '\x7d' then
      match depth with
      | 0 => .ok (some (.field { name, conversion, layout := read.reverse }), inText)
      | depth + 1 => .ok (none, inLayout name conversion (c :: read) depth)
    else .ok (none, inLayout name conversion (c :: read) depth)

def atEnd : Place → Option TemplateError
  | inText => none
  | afterBrace brace => some (.lone brace)
  | inName _ => some .unclosedField
  | inSelector _ => some .unclosedField
  | beforeConversion _ => some .noConversion
  | afterConversion _ _ => some .unclosedLayout
  | inLayout _ _ _ _ => some .unclosedLayout

end Place

def pieces (place : Place) : List Char → List (Except TemplateError Piece)
  | [] => (place.atEnd.map Except.error).toList
  | c :: rest =>
    match place.next c with
    | .error error => [.error error]
    | .ok (none, place) => pieces place rest
    | .ok (some piece, place) => .ok piece :: pieces place rest

def index? (name : List Char) : Except TemplateError (Option Nat) :=
  match leadingNatural name with
  | (none, _) => .ok none
  | (some number, rest) =>
    if !isSize number then .error .tooManyDigits
    else .ok (if rest.isEmpty then some number else none)

inductive Numbering where
  | unknown
  | automatic (next : Nat)
  | manual
  deriving DecidableEq, Repr, Inhabited

def Numbering.number (numbering : Numbering) (name : List Char) :
    Except TemplateError (Nat × Numbering) := do
  match ← index? name with
  | some index =>
    match numbering with
    | automatic _ => throw .automaticToManual
    | _ => return (index, manual)
  | none =>
    unless name.isEmpty do throw (.unknownField (String.ofList name))
    match numbering with
    | unknown => return (0, automatic 1)
    | automatic next => return (next, automatic (next + 1))
    | manual => throw .manualToAutomatic

def isSelector (c : Char) : Bool :=
  c == '.' || c == '['

inductive Selector where
  | named (name : String)
  | item (number : Nat)
  | keyed (key : String)
  deriving DecidableEq, Repr, Inhabited

def Selector.ofAttribute (name : List Char) : Except TemplateError Selector :=
  if name.isEmpty then .error .emptySelector else .ok (.named (String.ofList name))

def Selector.ofIndex (index : List Char) : Except TemplateError Selector := do
  match ← index? index with
  | some number => return .item number
  | none =>
    if index.isEmpty then throw .emptySelector
    return .keyed (String.ofList index)

inductive SelectorPlace where
  | between
  | inAttribute (read : List Char)
  | inIndex (read : List Char)
  deriving DecidableEq, Repr, Inhabited

namespace SelectorPlace

def opened (c : Char) : SelectorPlace :=
  if c = '.' then inAttribute [] else inIndex []

def next (place : SelectorPlace) (c : Char) :
    Except TemplateError (Option Selector × SelectorPlace) := do
  match place with
  | between => if isSelector c then return (none, opened c) else throw .afterSelector
  | inAttribute read =>
    if isSelector c then return (some (← Selector.ofAttribute read.reverse), opened c)
    else return (none, inAttribute (c :: read))
  | inIndex read =>
    if c = ']' then return (some (← Selector.ofIndex read.reverse), between)
    else return (none, inIndex (c :: read))

def atEnd : SelectorPlace → List (Except TemplateError Selector)
  | between => []
  | inAttribute read => [Selector.ofAttribute read.reverse]
  | inIndex _ => [.error .unclosedSelector]

end SelectorPlace

def selectors (place : SelectorPlace) : List Char → List (Except TemplateError Selector)
  | [] => place.atEnd
  | c :: rest =>
    match place.next c with
    | .error error => [.error error]
    | .ok (none, place) => selectors place rest
    | .ok (some selector, place) => .ok selector :: selectors place rest

def Selector.apply (selector : Selector) (value : Value) : Except TemplateError Value :=
  match selector, value with
  | named name, _ =>
    match value.attribute? name with
    | some selected => .ok selected
    | none => .error (.unknownAttribute value name)
  | item number, .text characters =>
    match characters[number]? with
    | some c => .ok (.text [c])
    | none => .error (.missingItem .text)
  | item number, .tuple kinds =>
    match kinds[number]? with
    | some kind => .ok (.category kind)
    | none => .error (.missingItem .tuple)
  | keyed _, .text _ => .error (.keyedItem .text)
  | keyed _, .tuple _ => .error (.keyedItem .tuple)
  | _, _ => .error (.noItems value)

def select (value : Value) (selectors : List (Except TemplateError Selector)) :
    Except TemplateError Value :=
  selectors.foldlM (fun value selector => do (← selector).apply value) value

/--
Convert a value: to a text, quoted, quoted in ASCII, or not at all, for which the null character also
stands.
-/
def convert (conversion : Option Char) (value : Value) : Except TemplateError Value :=
  match conversion with
  | none => .ok value
  | some '\x00' => .ok value
  | some 's' => .ok (.text value.shown)
  | some 'r' => .ok (.text value.quoted)
  | some 'a' => .ok (.text value.quotedAscii)
  | some c => .error (.unknownConversion c)

def Field.value (field : Field) (arguments : List String) (numbering : Numbering) :
    Except TemplateError (Value × Numbering) := do
  let (number, numbering) ← numbering.number (field.name.takeWhile (fun c => !isSelector c))
  match arguments[number]? with
  | none => throw (.missingArgument number)
  | some argument =>
    let selected ← select (.ofString argument)
      (selectors .between (field.name.dropWhile (fun c => !isSelector c)))
    return (← convert field.conversion selected, numbering)

def maxWidth : Nat :=
  0x1000000000

def arrange (description : List Char) (value : Value) : Except TemplateError (List Char) :=
  match value with
  | .text characters =>
    match Layout.parse description with
    | .error error => .error (.layout error)
    | .ok layout =>
      if maxWidth < layout.width.getD 0 then .error .tooWide else .ok (layout.apply characters)
  | value =>
    if description.isEmpty then .ok value.shown else .error (.noLayout value.belongsTo)

def fillPieces (arguments : List String)
    (expand : Numbering → List Char → Except TemplateError (List Char × Numbering))
    (numbering : Numbering) :
    List (Except TemplateError Piece) → Except TemplateError (List Char × Numbering)
  | [] => .ok ([], numbering)
  | .error error :: _ => .error error
  | .ok (.literal c) :: rest => do
    let (text, numbering) ← fillPieces arguments expand numbering rest
    return (c :: text, numbering)
  | .ok (.field field) :: rest => do
    let (value, numbering) ← field.value arguments numbering
    let (description, numbering) ←
      if field.layout.contains '\x7b' then expand numbering field.layout
      else pure (field.layout, numbering)
    let shown ← arrange description value
    let (text, numbering) ← fillPieces arguments expand numbering rest
    return (shown ++ text, numbering)

def fillNested (arguments : List String) :
    (depth : Nat) → Numbering → List Char → Except TemplateError (List Char × Numbering)
  | 0, _, _ => .error .tooDeep
  | depth + 1, numbering, template =>
    fillPieces arguments (fillNested arguments depth) numbering (pieces .inText template)

/--
Put expressions into the fields of a template. A layout can have fields, and those none in turn.
-/
def fill (template : String) (arguments : List String) : Except TemplateError String := do
  let (text, _) ← fillNested arguments 2 .unknown template.toList
  return String.ofList text

end Template

end NamedLambda.Text
