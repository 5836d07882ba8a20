import ImagePipeline.Failure

/-!
# Cancellation flags

A flag looks at a signal, and copies of a flag look at the same one: raising any of them raises
all. A new flag has a signal of its own. `Flags` holds a number of flags together with the signals
they look at.
-/

namespace ImagePipeline

/-- Flags and the signals they look at; a flag is the number of its signal. -/
structure Flags where
  raised : List Bool := [false]
  signals : List Nat := [0]

/-- What can be done with the flags; flags are numbered from zero in the order of their making. -/
inductive FlagEvent where
  | new
  | clone (flag : Nat)
  | cancel (flag : Nat)
  | check (flag : Nat)

namespace Flags

def isRaised (f : Flags) (flag : Nat) : Bool :=
  match f.signals[flag]? with
  | some signal => f.raised.getD signal false
  | none => false

/-- The flags after an event; an event on a flag that does not exist does nothing. -/
def step (f : Flags) : FlagEvent → Flags
  | .new => { raised := f.raised ++ [false], signals := f.signals ++ [f.raised.length] }
  | .clone flag =>
    match f.signals[flag]? with
    | some signal => { f with signals := f.signals ++ [signal] }
    | none => f
  | .cancel flag =>
    match f.signals[flag]? with
    | some signal => { f with raised := f.raised.set signal true }
    | none => f
  | .check _ => f

def check (f : Flags) (flag : Nat) : Except ProcessError Unit :=
  if f.isRaised flag then .error .cancelled else .ok ()

def checks (f : Flags) : List (Except ProcessError Unit) :=
  (List.range f.signals.length).map f.check

end Flags

end ImagePipeline
