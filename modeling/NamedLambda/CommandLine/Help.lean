import NamedLambda.CommandLine.Options

/-!
This module contains the description of the command line.
-/

namespace NamedLambda.CommandLine

def choices (names : List String) : String :=
  "\x7b" ++ ",".intercalate names ++ "\x7d"

def usage : String :=
  "usage: lcbook [-h] [-f " ++ choices Form.names ++ "] [-o " ++ choices Order.names
    ++ "] [-l LIMIT]\n              " ++ choices Task.names ++ " path\n"

def help : String :=
  usage
    ++ "\nUntyped lambda calculus with named definitions.\n\npositional arguments:\n  "
    ++ choices Task.names ++ "\n"
    ++ "                        reduce main once, print every reduction step, or start\n"
    ++ "                        an interactive shell\n"
    ++ "  path                  path to the input file\n\noptions:\n"
    ++ "  -h, --help            show this help message and exit\n"
    ++ "  -f " ++ choices Form.names ++ ", --form " ++ choices Form.names ++ "\n"
    ++ "                        form to reduce to (default: nf)\n"
    ++ "  -o " ++ choices Order.names ++ ", --order " ++ choices Order.names ++ "\n"
    ++ "                        reduction order (default: normal)\n"
    ++ "  -l LIMIT, --limit LIMIT\n"
    ++ "                        give up after this many reduction steps (default: no\n"
    ++ "                        limit)\n"

end NamedLambda.CommandLine
