import ImagePipeline.Config.Resolve
import ImagePipeline.Network.FormQuery
import ImagePipeline.Pipeline.Pixels
import ImagePipeline.Service.Upload

/-!
# The service over HTTP

Two routes are served: `POST /image`, whose query holds the descriptor and whose body is the
source, and `GET /health`. Any other path is not found, and any other method on one of the two is
not allowed. A service keeps nothing between requests but its buffers.
-/

namespace ImagePipeline

structure HttpRequest where
  method : String := "POST"
  target : String
  chunks : List ByteArray := []

inductive Content (β : Type) where
  | nothing
  | plain (text : String)
  | failure (reply : ErrorReply)
  | report (info : ImageInfo)
  | image (encoded : Encoded β)

def Content.type? {β : Type} : Content β → Option String
  | nothing => none
  | plain _ => some "text/plain; charset=utf-8"
  | failure _ => some "application/json"
  | report _ => some "application/json"
  | image encoded => some encoded.format.mimeType

structure HttpResponse (β : Type) where
  status : Nat
  contentType : Option String
  content : Content β

namespace HttpResponse

def of {β : Type} (status : Nat) (content : Content β) : HttpResponse β :=
  ⟨status, content.type?, content⟩

def withoutContent {β : Type} (r : HttpResponse β) : HttpResponse β :=
  { r with content := .nothing }

def ofError {β : Type} (alwaysOk : Bool) (e : ProcessError) : HttpResponse β :=
  of (e.status alwaysOk) (.failure (ErrorReply.ofError e))

def ofOutput {β : Type} : Output β → HttpResponse β
  | .image encoded => of 200 (.image encoded)
  | .info report => of 200 (.report report)

def ofResult {β : Type} (alwaysOk : Bool) : Except ProcessError (Output β) → HttpResponse β
  | .ok output => ofOutput output
  | .error e => ofError alwaysOk e

def notFound {β : Type} : HttpResponse β := of 404 .nothing

def notAllowed {β : Type} : HttpResponse β := of 405 .nothing

def healthy {β : Type} : HttpResponse β := of 200 (.plain "success")

end HttpResponse

namespace HttpRequest

/-- What a target says behind the server it names, if it names one: a scheme, `://` and a name may
stand in front of the path. A target that neither begins with a path nor names a scheme has none. -/
def behindServer (target : List Char) : List Char :=
  match target with
  | '/' :: _ => target
  | _ =>
    match Text.cutAt ':' target with
    | some (_, '/' :: '/' :: rest) => rest.dropWhile fun c => c != '/' && c != '?'
    | _ => []

/-- The path and the query of a target; a fragment is part of neither. -/
def pathAndQuery (r : HttpRequest) : String × String :=
  let target := behindServer (r.target.toList.takeWhile fun c => c != '#')
  match Text.cutAt '?' target with
  | some (path, query) => (String.ofList path, String.ofList query)
  | none => (String.ofList target, "")

/-- The descriptor in the query; without one it is empty. -/
def descriptor (r : HttpRequest) : String :=
  (FormQuery.value? r.pathAndQuery.2 processParam).getD ""

end HttpRequest

def ServiceConfig.limits (c : ServiceConfig) : Limits where
  maxDecodeBytes := c.backend.maxDecodeBytes
  maxOutputPixels := c.image.maxOutputPixels

structure Service where
  config : ServiceConfig
  pool : BufferPool

namespace Service

def new (config : ServiceConfig) : Service :=
  ⟨config, BufferPool.new config.backend.bufferPoolSize.toNat⟩

def pixelJob (config : ServiceConfig)
    (load : ByteArray → Except BackendError Photo := Photo.decode config.limits) : Job Picture :=
  fun body descriptor =>
    let backend : Backend Float := pixels config.limits load
    .finished (process backend config.settings .never body descriptor).result

def answerImage {β : Type} (job : Job β) (s : Service) (r : HttpRequest) :
    HttpResponse β × Service :=
  let (result, pool) :=
    upload s.config.server.maxBodyBytes.toNat job s.pool r.descriptor r.chunks
  (.ofResult s.config.server.legacyErrorStatus result, { s with pool := pool })

def answer {β : Type} (job : Job β) (s : Service) (r : HttpRequest) : HttpResponse β × Service :=
  match r.pathAndQuery.1, r.method with
  | "/image", "POST" => s.answerImage job r
  | "/image", _ => (.notAllowed, s)
  | "/health", "GET" => (.healthy, s)
  | "/health", "HEAD" => (HttpResponse.healthy.withoutContent, s)
  | "/health", _ => (.notAllowed, s)
  | _, _ => (.notFound, s)

end Service

end ImagePipeline
