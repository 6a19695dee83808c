/-!
This module contains the categories of the values that a field of a template can lead to, and the
operations that the members of each category have. They are known by their names alone: a template can
name an operation, and nothing applies it. A general operation takes the category it is asked of in place
of a member, a fixed one belongs to the category that has it whatever it is asked of, and a free one
belongs to none.
-/

namespace NamedLambda.Text

/--
The categories of values. Operations are divided twice: slots are apart from the others, and those that
are taken from a value are apart from those that are taken from a category.
-/
inductive Category where
  | object
  | text
  | nothing
  | tuple
  | categories
  | boundMethod
  | boundSlot
  | method
  | slot
  deriving DecidableEq, Repr, Inhabited

namespace Category

def name : Category → String
  | object => "object"
  | text => "str"
  | nothing => "NoneType"
  | tuple => "tuple"
  | categories => "type"
  | boundMethod => "builtin_function_or_method"
  | boundSlot => "method-wrapper"
  | method => "method_descriptor"
  | slot => "wrapper_descriptor"

def base? : Category → Option Category
  | object => none
  | _ => some object

def description? : Category → Option String
  | object => some ("The base class of the class hierarchy.\n\n" ++
      "When called, it accepts no arguments and returns a new featureless\n" ++
      "instance that has no instance attributes and cannot be given any.\n")
  | text => some ("str(object='') -> str\n" ++
      "str(bytes_or_buffer[, encoding[, errors]]) -> str\n\n" ++
      "Create a new string object from the given object. If encoding or\n" ++
      "errors is specified, then the object must expose a data buffer\n" ++
      "that will be decoded using the given encoding and error handler.\n" ++
      "Otherwise, returns the result of object.__str__() (if defined)\n" ++
      "or repr(object).\n" ++
      "encoding defaults to sys.getdefaultencoding().\n" ++
      "errors defaults to 'strict'.")
  | tuple => some ("Built-in immutable sequence.\n\n" ++
      "If no argument is given, the constructor returns an empty tuple.\n" ++
      "If iterable is specified the tuple is initialized from iterable's items.\n\n" ++
      "If the argument is a tuple, the return value is the same object.")
  | categories => some ("type(object) -> the object's type\n" ++
      "type(name, bases, dict, **kwds) -> a new type")
  | _ => none

def slots : Category → List String
  | object => ["__repr__", "__hash__", "__str__", "__getattribute__", "__setattr__", "__delattr__",
      "__lt__", "__le__", "__eq__", "__ne__", "__gt__", "__ge__", "__init__"]
  | text => ["__repr__", "__hash__", "__str__", "__getattribute__", "__lt__", "__le__", "__eq__",
      "__ne__", "__gt__", "__ge__", "__iter__", "__mod__", "__rmod__", "__len__", "__getitem__",
      "__add__", "__mul__", "__rmul__", "__contains__"]
  | nothing => ["__repr__", "__bool__"]
  | tuple => ["__repr__", "__hash__", "__getattribute__", "__lt__", "__le__", "__eq__", "__ne__",
      "__gt__", "__ge__", "__iter__", "__len__", "__getitem__", "__add__", "__mul__", "__rmul__",
      "__contains__"]
  | categories => ["__repr__", "__call__", "__getattribute__", "__setattr__", "__delattr__", "__init__",
      "__or__", "__ror__"]
  | boundMethod => boundSlots
  | boundSlot => boundSlots
  | method => ["__repr__", "__call__", "__getattribute__", "__get__"]
  | slot => ["__repr__", "__call__", "__getattribute__", "__get__"]
where
  boundSlots : List String :=
    ["__repr__", "__hash__", "__call__", "__getattribute__", "__lt__", "__le__", "__eq__", "__ne__",
      "__gt__", "__ge__"]

def methods : Category → List String
  | object => ["__reduce_ex__", "__reduce__", "__getstate__", "__format__", "__sizeof__", "__dir__"]
  | text => ["encode", "replace", "split", "rsplit", "join", "capitalize", "casefold", "title", "center",
      "count", "expandtabs", "find", "partition", "index", "ljust", "lower", "lstrip", "rfind", "rindex",
      "rjust", "rstrip", "rpartition", "splitlines", "strip", "swapcase", "translate", "upper",
      "startswith", "endswith", "removeprefix", "removesuffix", "isascii", "islower", "isupper",
      "istitle", "isspace", "isdecimal", "isdigit", "isnumeric", "isalpha", "isalnum", "isidentifier",
      "isprintable", "zfill", "format", "format_map", "__format__", "__sizeof__", "__getnewargs__"]
  | nothing => []
  | tuple => ["__getnewargs__", "index", "count"]
  | categories => ["mro", "__subclasses__", "__instancecheck__", "__subclasscheck__", "__dir__",
      "__sizeof__"]
  | _ => ["__reduce__"]

def general : Category → List String
  | object => ["__subclasshook__", "__init_subclass__"]
  | tuple => ["__class_getitem__"]
  | categories => ["__prepare__"]
  | _ => []

def fixed : Category → List String
  | object => ["__new__"]
  | text => ["__new__"]
  | nothing => ["__new__"]
  | tuple => ["__new__"]
  | categories => ["__new__"]
  | _ => []

def free : Category → List String
  | text => ["maketrans"]
  | _ => []

end Category

inductive Manner where
  | slot
  | method
  | general
  | fixed
  | free
  deriving DecidableEq, Repr, Inhabited

structure Operation where
  owner : Category
  name : String
  manner : Manner
  deriving DecidableEq, Repr, Inhabited

def Category.own (kind : Category) : List Operation :=
  kind.slots.map (⟨kind, ·, .slot⟩) ++ kind.methods.map (⟨kind, ·, .method⟩) ++
    kind.general.map (⟨kind, ·, .general⟩) ++ kind.fixed.map (⟨kind, ·, .fixed⟩) ++
    kind.free.map (⟨kind, ·, .free⟩)

def Category.operation? (kind : Category) (name : String) : Option Operation :=
  (kind.own ++ kind.base?.elim [] own).find? (·.name == name)

end NamedLambda.Text
