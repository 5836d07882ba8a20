import ImagePipeline.Text.Numeral

/-!
# Failures of a request

A backend fails in one of three ways (`BackendError`); whatever stops a request is a
`ProcessError`. `ProcessError.ofBackend` says which failures of a backend are the caller's doing:
bytes that do not decode, and a result larger than the service makes. Every failure has a wording,
a status code and a reason, which together are the body of an error answer (`ErrorReply`).
-/

namespace ImagePipeline

inductive BackendError where
  | decode (detail : String)
  | processingFailed (detail : String)
  | tooLarge (detail : String)
  deriving DecidableEq, Repr

def BackendError.message : BackendError → String
  | .decode detail => "Failed to decode image: " ++ detail
  | .processingFailed detail => "Processing failed: " ++ detail
  | .tooLarge detail => "Image too large: " ++ detail

inductive ProcessError where
  | param (detail : String)
  | unknownOperation (name : String)
  | decode (detail : String)
  | backend (error : BackendError)
  | payloadTooLarge (limit : Nat)
  | cancelled
  | internal (detail : String)
  deriving DecidableEq, Repr

namespace ProcessError

/-- Undecodable bytes and oversized results are the caller's doing; anything else is a fault of
the backend. -/
def ofBackend : BackendError → ProcessError
  | .decode detail => .decode detail
  | .tooLarge detail => .param ("image too large: " ++ detail)
  | .processingFailed detail => .backend (.processingFailed detail)

def message : ProcessError → String
  | .param detail => detail
  | .unknownOperation name => "unknown operation: " ++ name
  | .decode detail => detail
  | .backend error => "image backend failed: " ++ error.message
  | .payloadTooLarge limit => "request body exceeds " ++ Text.decimal limit ++ " bytes"
  | .cancelled => "request cancelled"
  | .internal detail => "internal error: " ++ detail

def code : ProcessError → Nat
  | .param _ => 400
  | .unknownOperation _ => 400
  | .decode _ => 400
  | .payloadTooLarge _ => 413
  | .cancelled => 499
  | .backend _ => 500
  | .internal _ => 500

def reason : ProcessError → String
  | .param _ => "PARAM_ERROR"
  | .unknownOperation _ => "UNKNOWN_OPERATION"
  | .decode _ => "DECODE_ERROR"
  | .backend _ => "BACKEND_ERROR"
  | .payloadTooLarge _ => "PAYLOAD_TOO_LARGE"
  | .cancelled => "CANCELLED"
  | .internal _ => "INTERNAL_ERROR"

def isClientError (e : ProcessError) : Bool := e.code < 500

/-- The status of the answer to a failed request; a service may answer 200 to every request and
leave the failure to the body. -/
def status (alwaysOk : Bool) (e : ProcessError) : Nat := if alwaysOk then 200 else e.code

end ProcessError

structure ErrorReply where
  code : Nat
  message : String
  reason : String
  deriving DecidableEq, Repr

def ErrorReply.ofError (e : ProcessError) : ErrorReply := ⟨e.code, e.message, e.reason⟩

end ImagePipeline
