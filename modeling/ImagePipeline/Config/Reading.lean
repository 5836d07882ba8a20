import ImagePipeline.Config.Service
import ImagePipeline.Config.Value

/-!
# Reading a configuration from a value

A section is read from a table, in which every key has to be known, or from an array of the
fields in their order, which may end early. Fields that are not there have their usual values.
Every field has a kind (`Field`), and a value of another kind or out of range is refused. Writing
a configuration (`ServiceConfig.toValue`) gives a table with every field that is set.
-/

namespace ImagePipeline.Config

/-! ### Kinds of fields -/

structure Field (α : Type) where
  read? : Value → Option α
  write? : α → Option Value

namespace Field

def natural {α : Type} (limit : Nat) (ofNat : Nat → α) (toNat : α → Nat) : Field α where
  read?
    | .integer n => if 0 ≤ n ∧ n ≤ limit then some (ofNat n.toNat) else none
    | _ => none
  write? a := some (.integer (toNat a))

def uint32 : Field UInt32 := natural 4294967295 UInt32.ofNat UInt32.toNat

def uint64 : Field UInt64 := natural 18446744073709551615 UInt64.ofNat UInt64.toNat

def text : Field String where
  read?
    | .string s => some s
    | _ => none
  write? s := some (.string s)

def boolean : Field Bool where
  read?
    | .boolean b => some b
    | _ => none
  write? b := some (.boolean b)

def optional {α : Type} (f : Field α) : Field (Option α) where
  read?
    | .null => some none
    | v => (f.read? v).map some
  write? a := a.bind f.write?

end Field

/-! ### Sections -/

/-- A named place in a section of type `σ`: how a value there changes the section, and the value
that the section has there. -/
structure Slot (σ : Type) where
  key : String
  put? : Value → σ → Option σ
  get? : σ → Option Value

def Slot.of {σ α : Type} (key : String) (field : Field α) (get : σ → α) (set : α → σ → σ) :
    Slot σ where
  key := key
  put? v s := (field.read? v).map fun a => set a s
  get? s := field.write? (get s)

/-- Puts the values of an array into the slots in order; there may be fewer values than slots. -/
def putInOrder? {σ : Type} : List (Slot σ) → List Value → σ → Option σ
  | _, [], s => some s
  | [], _ :: _, _ => none
  | slot :: slots, v :: values, s => (slot.put? v s).bind (putInOrder? slots values)

/-- Puts the entry of a table under a slot's key into the slot, if there is one. -/
def Slot.fill? {σ : Type} (slot : Slot σ) (entries : Entries) (s : σ) : Option σ :=
  match entries.lookup slot.key with
  | some v => slot.put? v s
  | none => some s

def isKey {σ : Type} (slots : List (Slot σ)) (key : String) : Bool :=
  slots.any fun slot => slot.key == key

/-- Puts the entries of a table into the slots named by their keys; every key has to be one. -/
def putByKey? {σ : Type} (slots : List (Slot σ)) (entries : Entries) (s : σ) : Option σ :=
  if entries.all fun e => isKey slots e.1 then
    slots.foldlM (fun s slot => slot.fill? entries s) s
  else none

/-- A section as a field: its slots, and the section in which nothing has been set. -/
def Field.ofSlots {σ : Type} (slots : List (Slot σ)) (usual : σ) : Field σ where
  read?
    | .table entries => putByKey? slots entries usual
    | .array values => putInOrder? slots values usual
    | _ => none
  write? s := some (.table
    (slots.filterMap fun slot => (slot.get? s).map fun v => (slot.key, v)))

def serverSlots : List (Slot ServerConfig) :=
  [ .of "addr" .text ServerConfig.addr (fun a c => { c with addr := a }),
    .of "timeout_secs" .uint64 ServerConfig.timeoutSecs (fun a c => { c with timeoutSecs := a }),
    .of "max_body_bytes" .uint64 ServerConfig.maxBodyBytes
      (fun a c => { c with maxBodyBytes := a }),
    .of "legacy_error_status" .boolean ServerConfig.legacyErrorStatus
      (fun a c => { c with legacyErrorStatus := a }) ]

def imageSlots : List (Slot ImageConfig) :=
  [ .of "quality" .uint32 ImageConfig.quality (fun a c => { c with quality := a }),
    .of "max_output_pixels" .uint64 ImageConfig.maxOutputPixels
      (fun a c => { c with maxOutputPixels := a }) ]

def backendSlots : List (Slot BackendConfig) :=
  [ .of "concurrency_level" .uint64 BackendConfig.concurrencyLevel
      (fun a c => { c with concurrencyLevel := a }),
    .of "max_decode_bytes" (.optional .uint64) BackendConfig.maxDecodeBytes
      (fun a c => { c with maxDecodeBytes := a }),
    .of "buffer_pool_size" .uint64 BackendConfig.bufferPoolSize
      (fun a c => { c with bufferPoolSize := a }) ]

def watermarkSlots : List (Slot WatermarkConfig) :=
  [ .of "dpi" .uint32 WatermarkConfig.dpi (fun a c => { c with dpi := a }),
    .of "margin" .uint32 WatermarkConfig.margin (fun a c => { c with margin := a }) ]

def loggingSlots : List (Slot LoggingConfig) :=
  [ .of "level" .text LoggingConfig.level (fun a c => { c with level := a }),
    .of "ansi" .boolean LoggingConfig.ansi (fun a c => { c with ansi := a }) ]

def serviceSlots : List (Slot ServiceConfig) :=
  [ .of "server" (.ofSlots serverSlots {}) ServiceConfig.server (fun a c => { c with server := a }),
    .of "image" (.ofSlots imageSlots {}) ServiceConfig.image (fun a c => { c with image := a }),
    .of "backend" (.ofSlots backendSlots {}) ServiceConfig.backend
      (fun a c => { c with backend := a }),
    .of "watermark" (.ofSlots watermarkSlots {}) ServiceConfig.watermark
      (fun a c => { c with watermark := a }),
    .of "logging" (.ofSlots loggingSlots {}) ServiceConfig.logging
      (fun a c => { c with logging := a }) ]

def serviceField : Field ServiceConfig := .ofSlots serviceSlots {}

end ImagePipeline.Config

namespace ImagePipeline.ServiceConfig

def ofValue? (v : Config.Value) : Option ServiceConfig := Config.serviceField.read? v

def toValue (c : ServiceConfig) : Config.Value := (Config.serviceField.write? c).getD .null

end ImagePipeline.ServiceConfig
