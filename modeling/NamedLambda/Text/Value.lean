import NamedLambda.Text.Category
import NamedLambda.Text.Quoted

/-!
This module contains the values that a field of a template can lead to. It starts at an expression, which
is a text, and a text belongs to a category and has operations. Categories and operations are values as
well: they can be asked for their names, and they are shown in a form of their own.
-/

namespace NamedLambda.Text

/--
The values that a field can lead to. An operation is bound to what it is taken together with, or taken
from a category without that.
-/
inductive Value where
  | text (characters : List Char)
  | nothing
  | tuple (kinds : List Category)
  | category (kind : Category)
  | bound (operation : Operation) (receiver : Value)
  | unbound (operation : Operation)
  deriving DecidableEq, Repr, Inhabited

namespace Value

def ofString (string : String) : Value :=
  text string.toList

def belongsTo : Value → Category
  | text _ => .text
  | nothing => .nothing
  | tuple _ => .tuple
  | category _ => .categories
  | bound operation _ => if operation.manner = .slot then .boundSlot else .boundMethod
  | unbound operation => if operation.manner = .slot then .slot else .method

def shown : Value → List Char
  | text characters => characters
  | nothing => "None".toList
  | tuple [kind] => ("(" ++ showCategory kind ++ ",)").toList
  | tuple kinds => ("(" ++ ", ".intercalate (kinds.map showCategory) ++ ")").toList
  | category kind => (showCategory kind).toList
  | bound operation receiver =>
    let name :=
      if operation.manner = .slot then "method-wrapper '" ++ operation.name ++ "'"
      else "built-in method " ++ operation.name
    -- The place of an operation in memory belongs to its form, and is always zero.
    ("<" ++ name ++ " of " ++ receiver.belongsTo.name ++ " object at 0x000000000000>").toList
  | unbound operation =>
    let manner := if operation.manner = .slot then "slot wrapper" else "method"
    ("<" ++ manner ++ " '" ++ operation.name ++ "' of '" ++ operation.owner.name ++ "' objects>").toList
where
  showCategory (kind : Category) : String := "<class '" ++ kind.name ++ "'>"

def qualifiedName (operation : Operation) (receiver : Value) : String :=
  let kind :=
    match operation.manner, receiver with
    | .slot, _ => operation.owner
    | _, category kind => kind
    | _, receiver => receiver.belongsTo
  kind.name ++ "." ++ operation.name

def description? : Category → Option Value
  | .nothing => some nothing
  | kind => kind.description?.map ofString

def ofCategory? (kind : Category) (name : String) : Option Value :=
  match name with
  | "__name__" => some (ofString kind.name)
  | "__qualname__" => some (ofString kind.name)
  | "__module__" => some (ofString "builtins")
  | "__doc__" => description? kind
  | "__base__" => some (kind.base?.elim nothing category)
  | "__bases__" => some (tuple kind.base?.toList)
  | "__mro__" => some (tuple (kind :: kind.base?.toList))
  | _ => none

def ofBound? (operation : Operation) (receiver : Value) (name : String) : Option Value :=
  match name with
  | "__name__" => some (ofString operation.name)
  | "__qualname__" => some (ofString (qualifiedName operation receiver))
  | "__self__" => some (if operation.manner = .free then nothing else receiver)
  | "__module__" => if operation.manner = .slot then none else some nothing
  | "__objclass__" => if operation.manner = .slot then some (category operation.owner) else none
  | _ => none

def ofUnbound? (operation : Operation) (name : String) : Option Value :=
  match name with
  | "__name__" => some (ofString operation.name)
  | "__qualname__" => some (ofString (operation.owner.name ++ "." ++ operation.name))
  | "__objclass__" => some (category operation.owner)
  | _ => none

def property? (value : Value) (name : String) : Option Value :=
  if name = "__class__" then some (category value.belongsTo)
  else
    match value with
    | category kind => ofCategory? kind name
    | bound operation receiver => ofBound? operation receiver name
    | unbound operation => ofUnbound? operation name
    | value => if name = "__doc__" then description? value.belongsTo else none

/--
An operation as it is taken from a category. Only what its members take part in is not bound.
-/
def takenFrom (kind : Category) (operation : Operation) : Value :=
  match operation.manner with
  | .slot => unbound operation
  | .method => unbound operation
  | .general => bound operation (category kind)
  | .fixed => bound operation (category operation.owner)
  | .free => bound operation (category operation.owner)

def take (value : Value) (operation : Operation) : Value :=
  match takenFrom value.belongsTo operation with
  | unbound operation => bound operation value
  | taken => taken

def attribute? (value : Value) (name : String) : Option Value :=
  value.property? name <|>
    (match value with
    | category kind => (kind.operation? name).map (takenFrom kind)
    | _ => none) <|>
    (value.belongsTo.operation? name).map value.take

def quoted : Value → List Char
  | text characters => (quote (String.ofList characters)).toList
  | value => value.shown

def quotedAscii : Value → List Char
  | text characters => (quoteAscii (String.ofList characters)).toList
  | value => value.shown

end Value

end NamedLambda.Text
