import ImagePipeline.Pipeline.Process
import ImagePipeline.Service.BufferPool
import ImagePipeline.Service.Worker

/-!
# Uploads

A request comes with a descriptor and with a body in chunks. The body is read into a buffer on loan
(`readBody`), which never holds more than the limit; then a job works on it, and the buffer goes
back whatever comes of it (`upload`). A request without a descriptor borrows nothing.
-/

namespace ImagePipeline

def readBody (limit : Nat) (buffer : ByteArray) :
    List ByteArray → ByteArray × Except ProcessError Unit
  | [] => (buffer, .ok ())
  | chunk :: rest =>
    if limit < buffer.size + chunk.size then (buffer, .error (.payloadTooLarge limit))
    else readBody limit (buffer ++ chunk) rest

abbrev Job (β : Type) : Type := ByteArray → String → JobEnd (Output β)

def missingDescriptor : ProcessError := .param ("Missing required param: " ++ processParam)

/-- Serves one request: its result, and the pool afterwards. -/
def upload {β : Type} (limit : Nat) (job : Job β) (pool : BufferPool) (descriptor : String)
    (chunks : List ByteArray) : Except ProcessError (Output β) × BufferPool :=
  if descriptor.isEmpty then (.error missingDescriptor, pool)
  else
    let (buffer, lent) := pool.checkout
    let (body, outcome) := readBody limit buffer chunks
    let result := match outcome with
      | .error e => .error e
      | .ok _ => (job body descriptor).recover
    (result, lent.giveBack body)

end ImagePipeline
