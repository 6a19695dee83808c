import NamedLambda.Report.Diagnostic
import NamedLambda.Source.Parse

/-!
This module contains failures: the reasons for which a book or a statement is turned down, and how each
one is put to the user.
-/

namespace NamedLambda

open Source (SyntaxError)

inductive Failure where
  | syntaxError (error : SyntaxError)
  | missingMain
  | unbound (name : String)
  | stepLimit (limit : Int)
  | notImplemented (feature name : String)
  | unreadable (path : String)
  | unknownMode (name : String)
  | fault (cause : Fault)
  deriving DecidableEq, Repr, Inhabited

/--
The diagnostic of a syntax error shows the line of the first issue, marked from its column on. Line
zero stands for the last line.
-/
def Source.SyntaxError.diagnostic (error : SyntaxError) : Except Fault Diagnostic :=
  let text := "\n".intercalate (error.issues.map Issue.render)
  let diagnostic := Diagnostic.about [.expression text] text
  match error.code with
  | none => .ok diagnostic.hidden
  | some code =>
    match error.issues with
    | [] => .error .noItem
    | issue :: _ =>
      match Text.item? (Text.lines code.toList) (issue.line - 1) with
      | none => .error (if Text.isIndex (issue.line - 1) then .noItem else .indexTooLarge)
      | some line =>
        .ok
          { diagnostic with
            expression := String.ofList line
            start := issue.column - 1
            stop := issue.column - 1 + max error.length 1 }

def Failure.diagnostic : Failure → Except Fault Diagnostic
  | syntaxError error => error.diagnostic
  | missingMain =>
    .ok (Diagnostic.about [.text "program doesn't have 'main' definition"] "").hidden
  | unbound name =>
    .ok (Diagnostic.about [.text "unbound variable '", .expression name, .text "'"] name).hidden
  | stepLimit limit =>
    let limit := toString limit
    .ok (Diagnostic.about
      [.text "reduction did not stop within ", .expression limit, .text " steps"] limit).hidden
  | notImplemented feature name =>
    .ok (Diagnostic.about
      [.expression feature, .text " '", .expression name, .text "' is not implemented"]
      feature).hidden
  | unreadable path =>
    .ok (Diagnostic.about [.text "'", .expression path, .text "' could not be opened"] path).hidden
  | unknownMode name =>
    .ok (Diagnostic.about [.text "unknown mode '", .expression name, .text "'"] name).hidden
  | .fault cause => .error cause

end NamedLambda
