import ImagePipeline.Proofs.Config.Layering
import ImagePipeline.Proofs.Config.Paths

/-!
# Configurations written down and read back

A configuration that has been written is read as the same configuration. A field reads what it
writes, and leaves out only its usual value (`Field.Faithful`); a section does so when its slots do,
keep clear of each other and are all there is in the section (`Record`). How the table was put
together does not matter: reading looks at what stands at its paths and at nothing else
(`Field.Respects`).
-/

namespace ImagePipeline.Config

variable {α σ : Type}

/-! ### Fields -/

structure Field.Faithful (field : Field α) (usual : α) : Prop where
  back {a : α} {v : Value} (written : field.write? a = some v) : field.read? v = some a
  omitted {a : α} (unwritten : field.write? a = none) : a = usual

namespace Field

theorem Faithful.injective {field : Field α} {usual a b : α} (h : field.Faithful usual)
    (heq : field.write? a = field.write? b) : a = b := by
  cases hb : field.write? b with
  | none => rw [h.omitted hb, h.omitted (heq.trans hb)]
  | some v => exact Option.some.inj ((h.back (heq.trans hb)).symm.trans (h.back hb))

theorem faithful_of_layered {field : Field α} (h : ∀ a, field.Layered a)
    (hwrites : ∀ a, (field.write? a).isSome) (usual : α) : field.Faithful usual := by
  constructor
  · intro a v hwritten
    exact (h a).restored hwritten
  · intro a hunwritten
    have hsome := hwrites a
    rw [hunwritten] at hsome
    cases hsome

theorem faithful_uint32 (usual : UInt32) : uint32.Faithful usual :=
  faithful_of_layered layered_uint32 (fun _ => rfl) usual

theorem faithful_uint64 (usual : UInt64) : uint64.Faithful usual :=
  faithful_of_layered layered_uint64 (fun _ => rfl) usual

theorem faithful_text (usual : String) : text.Faithful usual :=
  faithful_of_layered layered_text (fun _ => rfl) usual

theorem faithful_boolean (usual : Bool) : boolean.Faithful usual :=
  faithful_of_layered layered_boolean (fun _ => rfl) usual

/-- What is not set is left out, and anything that is set can be told from nothing. -/
theorem faithful_optional {field : Field α} {usual : α} (h : field.Faithful usual)
    (hwrites : ∀ a, (field.write? a).isSome) (hnull : field.read? .null = none) :
    (optional field).Faithful none := by
  constructor
  · intro a v hwritten
    obtain ⟨b, rfl, hb⟩ := Option.bind_eq_some_iff.mp hwritten
    have hback := h.back hb
    cases v with
    | null => cases hnull.symm.trans hback
    | string | integer | float | boolean | datetime | array | table =>
      simp only [optional, hback, Option.map_some]
  · intro a hunwritten
    cases a with
    | none => rfl
    | some b =>
      have hsome := hwrites b
      rw [show field.write? b = none from hunwritten] at hsome
      cases hsome

end Field

/-! ### Slots -/

namespace Slot

/-- What the slot writes can be put into any section and is found there again. What it leaves out
is not there in the usual section either. -/
structure Faithful (slot : Slot σ) (usual : σ) : Prop where
  stored {c : σ} {v : Value} (written : slot.get? c = some v) (s : σ) :
    ∃ after, slot.put? v s = some after ∧ slot.get? after = some v
  omitted {c : σ} (unwritten : slot.get? c = none) : slot.get? usual = none

theorem faithful_of {key : String} {field : Field α} {get : σ → α} {set : α → σ → σ} {usual : σ}
    (hfield : field.Faithful (get usual)) (hset : ∀ a s, get (set a s) = a) :
    (Slot.of key field get set).Faithful usual := by
  constructor
  · intro c v hwritten s
    have hread := hfield.back hwritten
    refine ⟨set (get c) s, by simp only [Slot.of, hread, Option.map_some], ?_⟩
    simp only [Slot.of, hset]
    exact hwritten
  · intro c hunwritten
    have husual := hfield.omitted hunwritten
    simp only [Slot.of] at hunwritten ⊢
    rw [← husual, hunwritten]

/-- Putting something into the first slot leaves the second one as it is. -/
def Clear (first second : Slot σ) : Prop :=
  ∀ v s after, first.put? v s = some after → second.get? after = second.get? s

theorem clear_of {β : Type} {key key' : String} {field : Field α} {field' : Field β}
    {get : σ → α} {get' : σ → β} {set : α → σ → σ} {set' : β → σ → σ}
    (h : ∀ a s, get' (set a s) = get' s) :
    Clear (Slot.of key field get set) (Slot.of key' field' get' set') := by
  intro v s after hput
  obtain ⟨a, -, rfl⟩ := Option.map_eq_some_iff.mp hput
  simp only [Slot.of, h]

/-- Filling a slot from what has been written of a section makes it like the slot there. -/
theorem Faithful.fill {slot : Slot σ} {usual c s : σ} (h : slot.Faithful usual)
    {entries : Entries} (hentry : entries.lookup slot.key = slot.get? c)
    (hstart : slot.get? s = slot.get? usual) :
    ∃ after, slot.fill? entries s = some after ∧ slot.get? after = slot.get? c ∧
      ∀ other : Slot σ, slot.Clear other → other.get? after = other.get? s := by
  cases hget : slot.get? c with
  | none =>
    refine ⟨s, by rw [fill?, hentry, hget], ?_, fun _ _ => rfl⟩
    rw [hstart, h.omitted hget]
  | some v =>
    obtain ⟨after, hput, hafter⟩ := h.stored hget s
    refine ⟨after, by rw [fill?, hentry, hget]; exact hput, hafter, ?_⟩
    intro other hclear
    exact hclear v s after hput

end Slot

/-! ### Sections -/

/-- Slots that make up a section: they have keys of their own, keep clear of each other, and two
sections that have the same in all of them are the same. -/
structure Record (slots : List (Slot σ)) (usual : σ) : Prop where
  keys : slots.Pairwise fun a b => a.key ≠ b.key
  clear : slots.Pairwise fun a b => a.Clear b ∧ b.Clear a
  faithful : ∀ slot ∈ slots, slot.Faithful usual
  whole {s c : σ} (same : ∀ slot ∈ slots, slot.get? s = slot.get? c) : s = c

/-- Slots that are all still as usual become those of the section that the entries tell of, and no
other slot is touched. -/
theorem fill_written {slots : List (Slot σ)} {usual c s : σ} {entries : Entries}
    (hclear : slots.Pairwise fun a b => a.Clear b ∧ b.Clear a)
    (hfaithful : ∀ slot ∈ slots, slot.Faithful usual)
    (hentries : ∀ slot ∈ slots, entries.lookup slot.key = slot.get? c)
    (hstart : ∀ slot ∈ slots, slot.get? s = slot.get? usual) :
    ∃ after, slots.foldlM (fun s slot => slot.fill? entries s) s = some after ∧
      (∀ slot ∈ slots, slot.get? after = slot.get? c) ∧
      ∀ other : Slot σ, (∀ slot ∈ slots, slot.Clear other) → other.get? after = other.get? s := by
  induction slots generalizing s with
  | nil => exact ⟨s, rfl, nofun, fun _ _ => rfl⟩
  | cons slot rest ih =>
    obtain ⟨hfirst, hclear⟩ := List.pairwise_cons.mp hclear
    obtain ⟨hslot, hfaithful⟩ := List.forall_mem_cons.mp hfaithful
    obtain ⟨hentry, hentries⟩ := List.forall_mem_cons.mp hentries
    obtain ⟨husual, hstart⟩ := List.forall_mem_cons.mp hstart
    obtain ⟨next, hfill, hnext, hframe⟩ := hslot.fill hentry husual
    have hrest : ∀ other ∈ rest, other.get? next = other.get? usual := by
      intro other hother
      rw [hframe other (hfirst other hother).1, hstart other hother]
    obtain ⟨after, hfold, hafter, hothers⟩ := ih hclear hfaithful hentries hrest
    refine ⟨after, by rw [List.foldlM_cons, hfill]; exact hfold, ?_, ?_⟩
    · refine List.forall_mem_cons.mpr ⟨?_, hafter⟩
      rw [hothers slot fun other hother => (hfirst other hother).2, hnext]
    · intro other hother
      obtain ⟨hslot, hrest⟩ := List.forall_mem_cons.mp hother
      rw [hothers other hrest, hframe other hslot]

theorem faithful_ofSlots {slots : List (Slot σ)} {usual : σ} (h : Record slots usual) :
    (Field.ofSlots slots usual).Faithful usual := by
  constructor
  · intro c v hwritten
    cases hwritten
    rw [← written]
    have hkeys : (written slots c).all (fun e => isKey slots e.1) = true :=
      List.all_eq_true.mpr fun _ hmem => isKey_of_written hmem
    have hentries : ∀ slot ∈ slots, (written slots c).lookup slot.key = slot.get? c :=
      fun _ hslot => lookup_written h.keys c hslot
    have husual : ∀ slot ∈ slots, slot.get? usual = slot.get? usual := fun _ _ => rfl
    obtain ⟨after, hfold, hafter, -⟩ := fill_written h.clear h.faithful hentries husual
    simp only [Field.ofSlots, putByKey?]
    rw [hkeys, if_pos rfl, hfold, h.whole hafter]
  · intro c hunwritten
    cases hunwritten

section

open ImagePipeline.Config.Field ImagePipeline.Config.Slot

theorem record_server : Record serverSlots {} := by
  refine ⟨by decide, by simp [serverSlots, clear_of], ?_, ?_⟩
  · simp only [serverSlots, List.forall_mem_cons]
    exact ⟨faithful_of (faithful_text _) fun _ _ => rfl,
      faithful_of (faithful_uint64 _) fun _ _ => rfl,
      faithful_of (faithful_uint64 _) fun _ _ => rfl,
      faithful_of (faithful_boolean _) fun _ _ => rfl, List.forall_mem_nil _⟩
  · rintro ⟨addr, timeout, body, status⟩ ⟨addr', timeout', body', status'⟩ hsame
    simp only [serverSlots, List.forall_mem_cons, Slot.of] at hsame
    obtain ⟨haddr, htimeout, hbody, hstatus, -⟩ := hsame
    cases (faithful_text "").injective haddr
    cases (faithful_uint64 0).injective htimeout
    cases (faithful_uint64 0).injective hbody
    cases (faithful_boolean false).injective hstatus
    rfl

theorem record_image : Record imageSlots {} := by
  refine ⟨by decide, by simp [imageSlots, clear_of], ?_, ?_⟩
  · simp only [imageSlots, List.forall_mem_cons]
    exact ⟨faithful_of (faithful_uint32 _) fun _ _ => rfl,
      faithful_of (faithful_uint64 _) fun _ _ => rfl, List.forall_mem_nil _⟩
  · rintro ⟨quality, pixels⟩ ⟨quality', pixels'⟩ hsame
    simp only [imageSlots, List.forall_mem_cons, Slot.of] at hsame
    obtain ⟨hquality, hpixels, -⟩ := hsame
    cases (faithful_uint32 0).injective hquality
    cases (faithful_uint64 0).injective hpixels
    rfl

theorem faithful_decodeBytes : (optional uint64).Faithful none :=
  faithful_optional (faithful_uint64 0) (fun _ => rfl) rfl

theorem record_backend : Record backendSlots {} := by
  refine ⟨by decide, by simp [backendSlots, clear_of], ?_, ?_⟩
  · simp only [backendSlots, List.forall_mem_cons]
    exact ⟨faithful_of (faithful_uint64 _) fun _ _ => rfl,
      faithful_of faithful_decodeBytes fun _ _ => rfl,
      faithful_of (faithful_uint64 _) fun _ _ => rfl, List.forall_mem_nil _⟩
  · rintro ⟨level, bytes, pool⟩ ⟨level', bytes', pool'⟩ hsame
    simp only [backendSlots, List.forall_mem_cons, Slot.of] at hsame
    obtain ⟨hlevel, hbytes, hpool, -⟩ := hsame
    cases (faithful_uint64 0).injective hlevel
    cases faithful_decodeBytes.injective hbytes
    cases (faithful_uint64 0).injective hpool
    rfl

theorem record_watermark : Record watermarkSlots {} := by
  refine ⟨by decide, by simp [watermarkSlots, clear_of], ?_, ?_⟩
  · simp only [watermarkSlots, List.forall_mem_cons]
    exact ⟨faithful_of (faithful_uint32 _) fun _ _ => rfl,
      faithful_of (faithful_uint32 _) fun _ _ => rfl, List.forall_mem_nil _⟩
  · rintro ⟨dpi, margin⟩ ⟨dpi', margin'⟩ hsame
    simp only [watermarkSlots, List.forall_mem_cons, Slot.of] at hsame
    obtain ⟨hdpi, hmargin, -⟩ := hsame
    cases (faithful_uint32 0).injective hdpi
    cases (faithful_uint32 0).injective hmargin
    rfl

theorem record_logging : Record loggingSlots {} := by
  refine ⟨by decide, by simp [loggingSlots, clear_of], ?_, ?_⟩
  · simp only [loggingSlots, List.forall_mem_cons]
    exact ⟨faithful_of (faithful_text _) fun _ _ => rfl,
      faithful_of (faithful_boolean _) fun _ _ => rfl, List.forall_mem_nil _⟩
  · rintro ⟨level, ansi⟩ ⟨level', ansi'⟩ hsame
    simp only [loggingSlots, List.forall_mem_cons, Slot.of] at hsame
    obtain ⟨hlevel, hansi, -⟩ := hsame
    cases (faithful_text "").injective hlevel
    cases (faithful_boolean false).injective hansi
    rfl

theorem record_service : Record serviceSlots {} := by
  refine ⟨by decide, by simp [serviceSlots, clear_of], ?_, ?_⟩
  · simp only [serviceSlots, List.forall_mem_cons]
    exact ⟨faithful_of (faithful_ofSlots record_server) fun _ _ => rfl,
      faithful_of (faithful_ofSlots record_image) fun _ _ => rfl,
      faithful_of (faithful_ofSlots record_backend) fun _ _ => rfl,
      faithful_of (faithful_ofSlots record_watermark) fun _ _ => rfl,
      faithful_of (faithful_ofSlots record_logging) fun _ _ => rfl, List.forall_mem_nil _⟩
  · rintro ⟨server, image, backend, watermark, logging⟩
      ⟨server', image', backend', watermark', logging'⟩ hsame
    simp only [serviceSlots, List.forall_mem_cons, Slot.of] at hsame
    obtain ⟨hserver, himage, hbackend, hwatermark, hlogging, -⟩ := hsame
    cases (faithful_ofSlots record_server).injective hserver
    cases (faithful_ofSlots record_image).injective himage
    cases (faithful_ofSlots record_backend).injective hbackend
    cases (faithful_ofSlots record_watermark).injective hwatermark
    cases (faithful_ofSlots record_logging).injective hlogging
    rfl

end

/-! ### The table does not matter, its paths do -/

namespace Value

theorem Agrees.cases {v w : Value} (h : v.Agrees w) :
    v = w ∨ ∃ lower upper, v = table lower ∧ w = table upper ∧
      ∀ key, Option.Rel Agrees (lower.lookup key) (upper.lookup key) := by
  have hroot : v.plain? = w.plain? := Option.some.inj (h [])
  cases v with
  | table lower =>
    cases w with
    | table upper =>
      refine .inr ⟨lower, upper, rfl, rfl, fun key => ?_⟩
      have hentry : ∀ path, ((lower.lookup key).bind (at? path)).map plain?
          = ((upper.lookup key).bind (at? path)).map plain? := fun path => h (key :: path)
      cases hlower : lower.lookup key with
      | none =>
        cases hupper : upper.lookup key with
        | none => exact .none
        | some o =>
          have habsent := hentry []
          rw [hlower, hupper] at habsent
          cases habsent
      | some u =>
        cases hupper : upper.lookup key with
        | none =>
          have habsent := hentry []
          rw [hlower, hupper] at habsent
          cases habsent
        | some o =>
          refine .some fun path => ?_
          have hpath := hentry path
          rwa [hlower, hupper] at hpath
    | null | string | integer | float | boolean | datetime | array => cases hroot
  | null | string | integer | float | boolean | datetime | array =>
    cases w with
    | table upper => cases hroot
    | null | string | integer | float | boolean | datetime | array =>
      exact .inl (Option.some.inj hroot)

theorem isSome_eq {u o : Option Value} (h : Option.Rel Agrees u o) : u.isSome = o.isSome := by
  cases h <;> rfl

theorem all_keys_iff {entries : Entries} {test : String → Bool} :
    entries.all (fun e => test e.1) = true ↔
      ∀ key, (entries.lookup key).isSome = true → test key = true := by
  simp only [← mem_keys_iff, keys, List.forall_mem_map, List.all_eq_true]

end Value

def Field.Respects (field : Field α) : Prop :=
  ∀ {v w : Value}, v.Agrees w → field.read? v = field.read? w

def Slot.Respects (slot : Slot σ) : Prop :=
  ∀ {v w : Value}, v.Agrees w → ∀ s, slot.put? v s = slot.put? w s

theorem Slot.respects_of {key : String} {field : Field α} {get : σ → α} {set : α → σ → σ}
    (h : field.Respects) : (Slot.of key field get set).Respects := by
  intro v w hagrees s
  simp only [Slot.of, h hagrees]

theorem Slot.Respects.fill {slot : Slot σ} (h : slot.Respects) {lower upper : Entries}
    (hentry : Option.Rel Value.Agrees (lower.lookup slot.key) (upper.lookup slot.key)) (s : σ) :
    slot.fill? lower s = slot.fill? upper s := by
  rw [fill?, fill?]
  generalize lower.lookup slot.key = u, upper.lookup slot.key = o at hentry ⊢
  cases hentry with
  | none => rfl
  | some hagrees => exact h hagrees s

theorem foldlM_agreeing {lower upper : Entries}
    (hentries : ∀ key, Option.Rel Value.Agrees (lower.lookup key) (upper.lookup key))
    {slots : List (Slot σ)} (h : ∀ slot ∈ slots, slot.Respects) (s : σ) :
    slots.foldlM (fun s slot => slot.fill? lower s) s
      = slots.foldlM (fun s slot => slot.fill? upper s) s := by
  induction slots generalizing s with
  | nil => rfl
  | cons slot rest ih =>
    obtain ⟨hslot, hrest⟩ := List.forall_mem_cons.mp h
    rw [List.foldlM_cons, List.foldlM_cons, hslot.fill (hentries slot.key) s]
    cases slot.fill? upper s with
    | none => rfl
    | some next => exact ih hrest next

namespace Field

/-- A field that has no use for tables looks at nothing below the value itself. -/
theorem respects_of_plain {field : Field α} (h : ∀ entries, field.read? (.table entries) = none) :
    field.Respects := by
  intro v w hagrees
  rcases hagrees.cases with rfl | ⟨lower, upper, rfl, rfl, -⟩
  · rfl
  · rw [h, h]

theorem respects_uint32 : uint32.Respects := respects_of_plain fun _ => rfl

theorem respects_uint64 : uint64.Respects := respects_of_plain fun _ => rfl

theorem respects_text : text.Respects := respects_of_plain fun _ => rfl

theorem respects_boolean : boolean.Respects := respects_of_plain fun _ => rfl

theorem respects_decodeBytes : (optional uint64).Respects := respects_of_plain fun _ => rfl

theorem respects_ofSlots {slots : List (Slot σ)} {usual : σ}
    (h : ∀ slot ∈ slots, slot.Respects) : (ofSlots slots usual).Respects := by
  intro v w hagrees
  rcases hagrees.cases with rfl | ⟨lower, upper, rfl, rfl, hentries⟩
  · rfl
  · have hkeys : lower.all (fun e => isKey slots e.1) = upper.all (fun e => isKey slots e.1) := by
      rw [Bool.eq_iff_iff, Value.all_keys_iff, Value.all_keys_iff]
      simp only [Value.isSome_eq (hentries _)]
    simp only [ofSlots, putByKey?, hkeys, foldlM_agreeing hentries h]

theorem respects_service : serviceField.Respects := by
  refine respects_ofSlots ?_
  simp only [serviceSlots, List.forall_mem_cons]
  refine ⟨Slot.respects_of (respects_ofSlots ?_), Slot.respects_of (respects_ofSlots ?_),
    Slot.respects_of (respects_ofSlots ?_), Slot.respects_of (respects_ofSlots ?_),
    Slot.respects_of (respects_ofSlots ?_), List.forall_mem_nil _⟩
  · simp [serverSlots, Slot.respects_of, respects_text, respects_uint64, respects_boolean]
  · simp [imageSlots, Slot.respects_of, respects_uint32, respects_uint64]
  · simp [backendSlots, Slot.respects_of, respects_uint64, respects_decodeBytes]
  · simp [watermarkSlots, Slot.respects_of, respects_uint32]
  · simp [loggingSlots, Slot.respects_of, respects_text, respects_boolean]

end Field

/-! ### What a file can hold -/

/-- The largest integer of a file, whose integers have 64 bits and a sign. -/
def Value.maxInteger : Nat := 9223372036854775807

/-- A value that can be written to a file: its integers are within the bounds, and there is no null,
since nothing in a file stands for what is not there. -/
inductive Value.Storable : Value → Prop where
  | string (s : String) : Storable (.string s)
  | integer {n : Int} (low : -maxInteger - 1 ≤ n) (high : n ≤ maxInteger) : Storable (.integer n)
  | float (x : Float) : Storable (.float x)
  | boolean (b : Bool) : Storable (.boolean b)
  | datetime (text : String) : Storable (.datetime text)
  | array {items : List Value} (each : ∀ v ∈ items, Storable v) : Storable (.array items)
  | table {entries : Entries} (each : ∀ entry ∈ entries, Storable entry.2) :
    Storable (.table entries)

def Slot.Storable (slot : Slot σ) (s : σ) : Prop :=
  ∀ v, slot.get? s = some v → v.Storable

theorem storable_written {slots : List (Slot σ)} {s : σ} (h : ∀ slot ∈ slots, slot.Storable s) :
    (Value.table (written slots s)).Storable := by
  refine .table fun entry hentry => ?_
  obtain ⟨slot, hslot, hget⟩ := List.mem_filterMap.mp hentry
  obtain ⟨v, hv, rfl⟩ := Option.map_eq_some_iff.mp hget
  exact h slot hslot v hv

namespace Slot

theorem storable_text {key : String} {get : σ → String} {set : String → σ → σ} {s : σ} :
    (Slot.of key .text get set).Storable s := by
  intro v hv
  cases hv
  exact .string _

theorem storable_boolean {key : String} {get : σ → Bool} {set : Bool → σ → σ} {s : σ} :
    (Slot.of key .boolean get set).Storable s := by
  intro v hv
  cases hv
  exact .boolean _

theorem storable_uint32 {key : String} {get : σ → UInt32} {set : UInt32 → σ → σ} {s : σ} :
    (Slot.of key .uint32 get set).Storable s := by
  intro v hv
  cases hv
  have hlt := (get s).toNat_lt
  exact .integer (by rw [Value.maxInteger]; omega) (by rw [Value.maxInteger]; omega)

theorem storable_uint64 {key : String} {get : σ → UInt64} {set : UInt64 → σ → σ} {s : σ}
    (h : (get s).toNat ≤ Value.maxInteger) : (Slot.of key .uint64 get set).Storable s := by
  intro v hv
  cases hv
  exact .integer (by omega) (Int.ofNat_le.mpr h)

theorem storable_optional {key : String} {get : σ → Option UInt64} {set : Option UInt64 → σ → σ}
    {s : σ} (h : ∀ n, get s = some n → n.toNat ≤ Value.maxInteger) :
    (Slot.of key (.optional .uint64) get set).Storable s := by
  intro v hv
  obtain ⟨n, hn, hwritten⟩ := Option.bind_eq_some_iff.mp hv
  cases hwritten
  exact .integer (by omega) (Int.ofNat_le.mpr (h n hn))

theorem storable_ofSlots {τ : Type} {key : String} {slots : List (Slot τ)} {usual : τ}
    {get : σ → τ} {set : τ → σ → σ} {s : σ} (h : ∀ slot ∈ slots, slot.Storable (get s)) :
    (Slot.of key (.ofSlots slots usual) get set).Storable s := by
  intro v hv
  cases hv
  exact storable_written h

end Slot

end ImagePipeline.Config

namespace ImagePipeline.ServiceConfig

open Config

/-- Every number in the configuration, that of `maxDecodeBytes` when it is set. -/
def numbers (c : ServiceConfig) : List Nat :=
  [c.server.timeoutSecs.toNat, c.server.maxBodyBytes.toNat, c.image.quality.toNat,
    c.image.maxOutputPixels.toNat, c.backend.concurrencyLevel.toNat,
    c.backend.bufferPoolSize.toNat, c.watermark.dpi.toNat, c.watermark.margin.toNat]
    ++ c.backend.maxDecodeBytes.toList.map UInt64.toNat

theorem storable_toValue {c : ServiceConfig} (h : ∀ n ∈ c.numbers, n ≤ Value.maxInteger) :
    c.toValue.Storable := by
  have hdecode : ∀ n, c.backend.maxDecodeBytes = some n → n.toNat ≤ Value.maxInteger := by
    intro n hn
    exact h n.toNat (List.mem_append_right _ (by simp [hn]))
  simp only [numbers, List.cons_append, List.forall_mem_cons] at h
  obtain ⟨htimeout, hbody, -, hpixels, hlevel, hpool, -⟩ := h
  refine storable_written ?_
  simp only [serviceSlots, List.forall_mem_cons]
  refine ⟨Slot.storable_ofSlots ?_, Slot.storable_ofSlots ?_, Slot.storable_ofSlots ?_,
    Slot.storable_ofSlots ?_, Slot.storable_ofSlots ?_, List.forall_mem_nil _⟩
  · simp only [serverSlots, List.forall_mem_cons]
    exact ⟨Slot.storable_text, Slot.storable_uint64 htimeout, Slot.storable_uint64 hbody,
      Slot.storable_boolean, List.forall_mem_nil _⟩
  · simp only [imageSlots, List.forall_mem_cons]
    exact ⟨Slot.storable_uint32, Slot.storable_uint64 hpixels, List.forall_mem_nil _⟩
  · simp only [backendSlots, List.forall_mem_cons]
    exact ⟨Slot.storable_uint64 hlevel, Slot.storable_optional hdecode,
      Slot.storable_uint64 hpool, List.forall_mem_nil _⟩
  · simp only [watermarkSlots, List.forall_mem_cons]
    exact ⟨Slot.storable_uint32, Slot.storable_uint32, List.forall_mem_nil _⟩
  · simp only [loggingSlots, List.forall_mem_cons]
    exact ⟨Slot.storable_text, Slot.storable_boolean, List.forall_mem_nil _⟩

theorem at?_toValue_decodeBytes {c : ServiceConfig} (h : c.backend.maxDecodeBytes = none) :
    c.toValue.at? ["backend", "max_decode_bytes"] = none := by
  have hbackend : c.toValue.entry? "backend" = some (.table (written backendSlots c.backend)) := rfl
  have hbytes : (written backendSlots c.backend).lookup "max_decode_bytes"
      = (Field.optional Field.uint64).write? c.backend.maxDecodeBytes :=
    lookup_written record_backend.keys c.backend (List.mem_cons_of_mem _ List.mem_cons_self)
  rw [h] at hbytes
  rw [Value.at?_cons hbackend]
  exact Value.at?_cons_none hbytes

theorem ofValue?_of_agrees {v : Value} {c : ServiceConfig} (h : v.Agrees c.toValue) :
    ofValue? v = some c := by
  rw [ofValue?, Field.respects_service h]
  exact (faithful_ofSlots record_service).back rfl

theorem resolve_of_read {v : Value} {c : ServiceConfig} (h : ofValue? v = some c) :
    resolve (some v) = c.validate.map fun _ => c := by
  rw [← ofValue?_merge] at h
  rw [resolve, ofValue_of_read h]

theorem validate_of_ofValue {v : Value} {c : ServiceConfig} (h : ofValue v = .ok c) :
    c.validate = .ok () := by
  unfold ofValue at h
  split at h
  · cases h
  · split at h
    · cases h
    · next hvalid =>
      cases h
      exact hvalid

theorem quality_of_validate {c : ServiceConfig} (h : c.validate = .ok ()) :
    c.settings.quality.value = c.image.quality := by
  have hnone := validate_ok_iff.mp h
  rw [problem?, Option.map_eq_none_iff, List.find?_eq_none] at hnone
  have hquality := hnone (decide (1 ≤ c.image.quality ∧ c.image.quality ≤ 100), .quality)
    (by simp [checks])
  simp only [Bool.not_eq_true', decide_eq_false_iff_not, Decidable.not_not] at hquality
  simp only [UInt32.le_iff_toNat_le, UInt32.toNat_ofNat] at hquality
  exact Quality.clamp_value hquality.1 hquality.2

/-- Every valid configuration whose numbers fit into 64-bit integers can be written to a file, a
limit for decoding that is not set being left out, and whatever table holds what was written gives
that very configuration back. A configuration that a user gets is valid, and so the quality that
the encoders are set to is the one that was configured. -/
theorem resolve_written :
    (∀ c : ServiceConfig, c.validate = .ok () → (∀ n ∈ c.numbers, n ≤ Value.maxInteger) →
      c.toValue.Storable ∧
        (c.backend.maxDecodeBytes = none →
          c.toValue.at? ["backend", "max_decode_bytes"] = none) ∧
        ∀ v : Value, v.Agrees c.toValue → resolve (some v) = .ok c) ∧
      ∀ overlay c, resolve overlay = .ok c →
        c.validate = .ok () ∧ c.settings.quality.value = c.image.quality := by
  constructor
  · intro c hvalid hnumbers
    refine ⟨storable_toValue hnumbers, ?_, ?_⟩
    · exact at?_toValue_decodeBytes
    · intro v hagrees
      rw [resolve_of_read (ofValue?_of_agrees hagrees), hvalid]
      rfl
  · intro overlay c hresolve
    have hvalid : c.validate = .ok () := by
      cases overlay with
      | none =>
        rw [resolve] at hresolve
        exact validate_of_ofValue hresolve
      | some v =>
        rw [resolve] at hresolve
        exact validate_of_ofValue hresolve
    exact ⟨hvalid, quality_of_validate hvalid⟩

theorem resolve_written_limited :
    let c : ServiceConfig :=
      { image := { quality := 80 }, backend := { maxDecodeBytes := some 1048576 } }
    c.toValue.Storable ∧ resolve (some c.toValue) = .ok c ∧ c.settings.quality.value = 80 := by
  intro c
  have hvalid : c.validate = .ok () := validate_ok_iff.mpr (by decide +kernel)
  have hnumbers : ∀ n ∈ c.numbers, n ≤ Value.maxInteger := by decide
  obtain ⟨hwritten, hresolved⟩ := resolve_written
  obtain ⟨hstorable, -, hback⟩ := hwritten c hvalid hnumbers
  have hresolve : resolve (some c.toValue) = .ok c := hback c.toValue fun _ => rfl
  exact ⟨hstorable, hresolve, (hresolved (some c.toValue) c hresolve).2⟩

end ImagePipeline.ServiceConfig
