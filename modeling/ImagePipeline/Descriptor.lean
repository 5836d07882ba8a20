import ImagePipeline.Failure
import ImagePipeline.Text.Split

/-!
# Descriptors

A descriptor is the text that says what to do with an image:

    descriptor := segment ("/" segment)*
    segment    := name ("," token)*
    token      := key "_" value

`Descriptor.parse` only cuts the text up. Two names are set apart: `info` raises a flag, and
`format` is kept on its own because it always runs last; every other operation keeps its place.
What a token means is decided per operation, later. `Descriptor.toText` writes the ordinary
operations back.
-/

namespace ImagePipeline

structure Operation where
  name : String
  options : List String
  deriving DecidableEq, Repr

namespace Operation

/-- A token as a key and a value, cut at its first underscore. -/
def keyValue? (token : String) : Option (String × String) :=
  (Text.cutAt '_' token.toList).map fun (key, value) => (String.ofList key, String.ofList value)

/-- The tokens that have a key and a value; the others are passed over. -/
def params (op : Operation) : List (String × String) := op.options.filterMap keyValue?

/-- The operation as a segment: its name and tokens with commas between. -/
def segment (op : Operation) : List Char :=
  Text.joinWith ',' (op.name.toList :: op.options.map String.toList)

def textOf (ops : List Operation) : String :=
  String.ofList (Text.joinWith '/' (ops.map segment))

end Operation

structure Descriptor where
  operations : List Operation := []
  /-- The last `format` operation. -/
  format : Option Operation := none
  /-- Some segment is named `info`. -/
  info : Bool := false
  deriving DecidableEq, Repr

inductive DescriptorError where
  | empty
  | emptySegment (index : Nat)
  | missingName (segment : String)
  deriving DecidableEq, Repr

def processParam : String := "x-oss-process"

def DescriptorError.message : DescriptorError → String
  | .empty => "Missing required param: " ++ processParam
  | .emptySegment index => "empty operation at position " ++ Text.decimal index
  | .missingName segment => "missing operation name in `" ++ segment ++ "`"

namespace Descriptor

def namespaceText : String := "image/"

/-- Takes one leading namespace off, if it is there. -/
def stripNamespace (text : String) : String :=
  if namespaceText.toList.isPrefixOf text.toList then
    String.ofList (text.toList.drop namespaceText.toList.length)
  else text

/-- Reads one segment: a name, then tokens, of which empty ones are dropped. -/
def readSegment (index : Nat) (segment : List Char) : Except DescriptorError Operation :=
  if segment.isEmpty then .error (.emptySegment index)
  else
    match Text.pieces ',' segment with
    | [] => .error (.missingName (String.ofList segment))
    | name :: tokens =>
      if name.isEmpty then .error (.missingName (String.ofList segment))
      else .ok ⟨String.ofList name, (tokens.filter fun t => !t.isEmpty).map String.ofList⟩

def add (d : Descriptor) (op : Operation) : Descriptor :=
  if op.name = "info" then { d with info := true }
  else if op.name = "format" then { d with format := some op }
  else { d with operations := d.operations ++ [op] }

/-- Reads the segments from number `index` on and files them one after the other. -/
def readSegments : Nat → List (List Char) → Descriptor → Except DescriptorError Descriptor
  | _, [], d => .ok d
  | index, segment :: rest, d => do
    let op ← readSegment index segment
    readSegments (index + 1) rest (d.add op)

/-- Cuts a descriptor up; the leftmost malformed segment is the error. -/
def parse (text : String) : Except DescriptorError Descriptor :=
  if text.isEmpty then .error .empty else readSegments 0 (Text.pieces '/' text.toList) {}

/-- The ordinary operations as a descriptor; `info` and `format` are not among them. -/
def toText (d : Descriptor) : String := Operation.textOf d.operations

end Descriptor

def ProcessError.ofDescriptor (e : DescriptorError) : ProcessError := .param e.message

end ImagePipeline
