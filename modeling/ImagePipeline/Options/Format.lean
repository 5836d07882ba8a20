import ImagePipeline.Format
import ImagePipeline.Options.Scan

/-!
# The option of a format operation

The first token names the encoder; every name is accepted, an unknown one means the source's own
format.
-/

namespace ImagePipeline

def OutputFormat.parse (op : Operation) : Except OptionError OutputFormat :=
  match op.options with
  | [] => .error (.missing "format")
  | name :: _ => if name.isEmpty then .error (.missing "format") else .ok (OutputFormat.ofName name)

end ImagePipeline
