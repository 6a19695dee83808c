import NamedLambda.Text.Template
import NamedLambda.Text.Utf8

/-!
This module contains faults: what goes wrong other than by a mistake in a book or a statement. A fault
is reported by its kind and its text.
-/

namespace NamedLambda

open Text (DecodeError TemplateError)

inductive Fault where
  | missingKey (key : String)
  | noResult
  | noItem
  | indexTooLarge
  | offsetTooLarge
  | countTooLarge
  | outOfMemory
  | badTemplate (error : TemplateError)
  | nullInPath
  | blankName
  | blankLimit
  | undecodable (error : DecodeError)
  | undiagnosed (kind : String)
  | unforeseen (kind text : String)
  deriving DecidableEq, Repr, Inhabited

namespace Fault

def kind : Fault → String
  | missingKey _ => "KeyError"
  | noResult => "IndexError"
  | noItem => "IndexError"
  | indexTooLarge => "IndexError"
  | offsetTooLarge => "OverflowError"
  | countTooLarge => "OverflowError"
  | outOfMemory => "MemoryError"
  | badTemplate error => error.kind
  | nullInPath => "ValueError"
  | blankName => "TypeError"
  | blankLimit => "TypeError"
  | undecodable _ => "UnicodeDecodeError"
  | undiagnosed _ => "AttributeError"
  | unforeseen kind _ => kind

def text : Fault → String
  | missingKey key => Text.quote key
  | noResult => "pop from empty list"
  | noItem => "list index out of range"
  | indexTooLarge => "cannot fit 'int' into an index-sized integer"
  | offsetTooLarge => "Python int too large to convert to C ssize_t"
  | countTooLarge => "cannot fit 'int' into an index-sized integer"
  | outOfMemory => ""
  | badTemplate error => error.message
  | nullInPath => "embedded null byte"
  | blankName => "unhashable type: 'list'"
  | blankLimit => "'>' not supported between instances of 'int' and 'list'"
  | undecodable error => error.message
  | undiagnosed kind => "'" ++ kind ++ "' object has no attribute 'internal'"
  | unforeseen _ text => text

end Fault

end NamedLambda
