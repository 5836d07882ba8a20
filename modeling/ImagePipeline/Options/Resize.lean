import ImagePipeline.Options.Scan

/-!
# Options of a resize

A resize names a box (`w`, `h`), the long and short edges (`l`, `s`) or a percentage (`p`), and a
mode. A box makes edges and percentage void, wherever they stand in the token list.
-/

namespace ImagePipeline

inductive ResizeMode where
  | pad
  | fill
  | fixed
  | mfit
  | default
  deriving DecidableEq, Repr

namespace ResizeMode

/-- The mode of a name; unknown names mean the default mode. -/
def ofName : String → ResizeMode
  | "pad" => pad
  | "fill" => fill
  | "fixed" => fixed
  | "mfit" => mfit
  | _ => default

def name : ResizeMode → String
  | pad => "pad"
  | fill => "fill"
  | fixed => "fixed"
  | mfit => "mfit"
  | default => "default"

end ResizeMode

/-- The options of a resize; a size of zero is not given. -/
structure ResizeOptions where
  w : UInt32 := 0
  h : UInt32 := 0
  l : UInt32 := 0
  s : UInt32 := 0
  p : UInt32 := 0
  /-- Never enlarge beyond the source. -/
  limit : Bool := true
  mode : ResizeMode := .default
  colour : Option Rgb := none
  deriving DecidableEq, Repr

namespace ResizeOptions

def hasBox (o : ResizeOptions) : Bool := o.w > 0 || o.h > 0

def hasEdges (o : ResizeOptions) : Bool := o.w > 0 || o.h > 0 || o.l > 0 || o.s > 0

def hasTarget (o : ResizeOptions) : Bool := o.hasEdges || o.p > 0

def take (o : ResizeOptions) : String × String → Except OptionError ResizeOptions
  | ("w", v) => do return { o with w := ← Options.number "resize" "w" v }
  | ("h", v) => do return { o with h := ← Options.number "resize" "h" v }
  | ("l", v) => do return { o with l := ← Options.number "resize" "l" v }
  | ("s", v) => do return { o with s := ← Options.number "resize" "s" v }
  | ("p", v) => do return { o with p := ← Options.number "resize" "p" v }
  | ("limit", v) => do return { o with limit := (← Options.number "resize" "limit" v) != 0 }
  | ("m", v) => .ok { o with mode := .ofName v }
  | ("color", v) => do return { o with colour := some (← Options.colour v) }
  | _ => .ok o

def preferBox (o : ResizeOptions) : ResizeOptions :=
  if o.hasBox then { o with l := 0, s := 0, p := 0 } else o

def settle (o : ResizeOptions) : Except OptionError ResizeOptions :=
  let o := o.preferBox
  if o.hasTarget then .ok o else .error .noTarget

def ofParams (params : List (String × String)) : Except OptionError ResizeOptions := do
  settle (← Options.scan take {} params)

def parse (op : Operation) : Except OptionError ResizeOptions := ofParams op.params

end ResizeOptions

end ImagePipeline
