import ImagePipeline.Command.Run
import ImagePipeline.Container.Encode

/-!
# The program

Reads the files that the arguments name, runs the command on them, writes what it made and prints
what it says. No address is listened on, and an image whose container has no encoder is not written.
-/

namespace ImagePipeline

def readFiles (paths : List String) : IO (List (String × ByteArray)) :=
  paths.filterMapM fun (path : String) => do
    try
      let content ← IO.FS.readBinFile path
      return some (path, content)
    catch _ => return none

def Encoded.bytes? (image : Encoded Picture) : Option ByteArray :=
  (Container.encode? image.format image.body).map fun bytes => ⟨bytes.toArray⟩

/-- Writes an image; says whether this was possible. -/
def writeImage (path : String) (bytes : ByteArray) : IO Bool := do
  try
    IO.FS.writeBinFile path bytes
    return true
  catch _ => return false

def Outcome.report (outcome : Outcome) : IO UInt32 := do
  outcome.lines.forM fun line => IO.println line
  outcome.problem.forM fun problem => IO.eprintln ("Error: " ++ problem)
  return UInt32.ofNat outcome.code

def runProgram (args : List String) : IO UInt32 := do
  let paths := ((Invocation.parse args).map Invocation.reads).getD []
  let files ← readFiles paths
  let around : Surroundings :=
    { read := fun path => files.lookup path
      canWrite := fun _ => true
      canListen := fun _ => false
      sizeOf := fun image => (image.bytes?.map ByteArray.size).getD 0 }
  let outcome := runArguments around args
  match outcome.written.mapM fun (path, image) => image.bytes?.map (path, ·) with
  | none =>
    IO.eprintln "Error: there is no encoder for the result"
    return 1
  | some files =>
    if ← files.allM fun (path, bytes) => writeImage path bytes then outcome.report
    else (runArguments { around with canWrite := fun _ => false } args).report

end ImagePipeline

def main (args : List String) : IO UInt32 := ImagePipeline.runProgram args
