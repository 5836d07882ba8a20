import ImagePipeline.Number.Binary64
import ImagePipeline.Options.Scan

/-!
# Options of a blur

Both the standard deviation and the radius have to be given and positive. The radius only says how
far out a weight still counts (`BlurOptions.minAmplitude`).
-/

namespace ImagePipeline

structure BlurOptions where
  sigma : Float := 0
  radius : Float := 0

namespace BlurOptions

def take (o : BlurOptions) : String × String → Except OptionError BlurOptions
  | ("s", v) => do
    return { o with sigma := ← Options.valueOf "blur" "s" v (Binary64.read? v) }
  | ("r", v) => do
    return { o with radius := ← Options.valueOf "blur" "r" v (Binary64.read? v) }
  | _ => .ok o

/-- Whether a number is a usable extent: positive and not NaN. -/
def usable (x : Float) : Bool := !x.isNaN && !(x ≤ 0)

def settle (o : BlurOptions) : Except OptionError BlurOptions :=
  if usable o.sigma && usable o.radius then .ok o else .error (.missing "sigma or radius")

def ofParams (params : List (String × String)) : Except OptionError BlurOptions := do
  settle (← Options.scan take {} params)

def parse (op : Operation) : Except OptionError BlurOptions := ofParams op.params

/-- The least weight, relative to the centre, that still counts: `1 - (radius / 50)² / 2`. -/
def minAmplitude (o : BlurOptions) : Float := 1 - o.radius / 50 * (o.radius / 50) / 2

end BlurOptions

end ImagePipeline
