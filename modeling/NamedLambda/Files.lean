import NamedLambda.Failure

/-!
This module contains the reading of text files, which are UTF-8 with any line ends. What is found at
which path is a parameter.
-/

namespace NamedLambda

inductive FileEntry where
  | missing
  | directory
  | file (octets : List UInt8)
  deriving DecidableEq, Repr, Inhabited

def readText (files : String → FileEntry) (path : String) : Except Failure String :=
  if path.toList.contains '\x00' then .error (.fault .nullInPath)
  else
    match files path with
    | .missing => .error (.unreadable path)
    | .directory => .error (.unreadable path)
    | .file octets =>
      match Text.decode octets with
      | .ok text => .ok (String.ofList (Text.normalizeNewlines text))
      | .error error => .error (.fault (.undecodable error))

end NamedLambda
