import ImagePipeline.Failure

/-!
# Jobs that may panic

The work of a request runs as a job on a worker. A job that panics does not take the worker with
it: the panic becomes an internal error that carries the panic's text.
-/

namespace ImagePipeline

inductive Panic where
  | text (message : String)
  | other
  deriving DecidableEq, Repr

def Panic.message : Panic → String
  | .text message => message
  | .other => "unknown panic"

inductive JobEnd (α : Type) where
  | finished (result : Except ProcessError α)
  | panicked (panic : Panic)

def JobEnd.recover {α : Type} : JobEnd α → Except ProcessError α
  | .finished result => result
  | .panicked panic => .error (.internal panic.message)

/-- The number of workers for a configured number and a number of cores: zero means one for each
core, and there are never more workers than cores. -/
def workerCount (configured cores : Nat) : Nat :=
  if configured = 0 then cores else min configured cores

end ImagePipeline
