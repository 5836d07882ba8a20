import ImagePipeline.Config.Resolve
import ImagePipeline.Proofs.Config.Overlay

/-!
# Layers and usual values

There are two ways to give the fields that a user does not configure their usual values: to lay what
is configured over the usual values and read the result, or to read what is configured and let
reading fill in what is not there. They agree, on what is refused as well (`resolve_layered`). A
field takes part in that when it reads its usual value back and reads an overlay on it like the
overlay alone (`Field.Layered`). Plain fields do, and a section does when its slots do and do not
get into each other's way (`layered_ofSlots`).
-/

namespace ImagePipeline.Config

variable {α σ : Type}

/-! ### Fields -/

/-- The field reads back the usual value that it has written, and reads whatever is laid over it as
it would alone. -/
structure Field.Layered (field : Field α) (usual : α) : Prop where
  restored {base : Value} (written : field.write? usual = some base) :
    field.read? base = some usual
  overlaid {base : Value} (written : field.write? usual = some base) (v : Value) :
    field.read? (base.merge v) = field.read? v

namespace Field

theorem layered_of_plain {field : Field α} {usual : α} {base : Value}
    (written : field.write? usual = some base) (plain : base.isTable = false)
    (restored : field.read? base = some usual) : field.Layered usual := by
  constructor
  · intro _ hwritten
    cases written.symm.trans hwritten
    exact restored
  · intro _ hwritten v
    cases written.symm.trans hwritten
    rw [Value.merge_of_base plain]

theorem layered_natural {limit : Nat} {ofNat : Nat → α} {toNat : α → Nat} {usual : α}
    (hlimit : toNat usual ≤ limit) (hback : ofNat (toNat usual) = usual) :
    (natural limit ofNat toNat).Layered usual := by
  refine layered_of_plain rfl rfl ?_
  have hrange : (0 : Int) ≤ toNat usual ∧ (toNat usual : Int) ≤ limit := by omega
  simp only [natural, hrange, and_self, if_true, Int.toNat_natCast, hback]

theorem layered_uint32 (usual : UInt32) : uint32.Layered usual :=
  layered_natural (Nat.le_of_lt_succ usual.toNat_lt) UInt32.ofNat_toNat

theorem layered_uint64 (usual : UInt64) : uint64.Layered usual :=
  layered_natural (Nat.le_of_lt_succ usual.toNat_lt) UInt64.ofNat_toNat

theorem layered_text (usual : String) : text.Layered usual := layered_of_plain rfl rfl rfl

theorem layered_boolean (usual : Bool) : boolean.Layered usual := layered_of_plain rfl rfl rfl

/-- What is not there is not written, so nothing lies under an overlay. -/
theorem layered_none (field : Field α) : (optional field).Layered none := by
  constructor
  · intro _ hwritten
    cases hwritten
  · intro _ hwritten
    cases hwritten

end Field

/-! ### Slots -/

namespace Slot

/-- The same of a slot, as seen from its section. -/
structure Layered (slot : Slot σ) (usual : σ) : Prop where
  restored {base : Value} (written : slot.get? usual = some base) :
    slot.put? base usual = some usual
  overlaid {base : Value} (written : slot.get? usual = some base) (v : Value) (s : σ) :
    slot.put? (base.merge v) s = slot.put? v s

theorem layered_of {key : String} {field : Field α} {get : σ → α} {set : α → σ → σ} {usual : σ}
    (hfield : field.Layered (get usual)) (hset : set (get usual) usual = usual) :
    (Slot.of key field get set).Layered usual := by
  constructor
  · intro base hwritten
    simp only [Slot.of, hfield.restored hwritten, Option.map_some, hset]
  · intro base hwritten v s
    simp only [Slot.of, hfield.overlaid hwritten]

/-- It does not matter which of the two slots is filled first. -/
def Commutes (first second : Slot σ) : Prop :=
  ∀ v w s, (first.put? v s).bind (second.put? w) = (second.put? w s).bind (first.put? v)

theorem commutes_of {β : Type} {key key' : String} {field : Field α} {field' : Field β}
    {get : σ → α} {get' : σ → β} {set : α → σ → σ} {set' : β → σ → σ}
    (h : ∀ a b s, set' b (set a s) = set a (set' b s)) :
    Commutes (Slot.of key field get set) (Slot.of key' field' get' set') := by
  intro v w s
  simp only [Slot.of]
  cases field.read? v with
  | none => cases field'.read? w <;> rfl
  | some a =>
    cases field'.read? w with
    | none => rfl
    | some b => exact congrArg some (h a b s)

/-- Putting the usual value into the slot changes nothing. -/
def Rests (slot : Slot σ) (usual s : σ) : Prop :=
  ∀ base, slot.get? usual = some base → slot.put? base s = some s

theorem Rests.after {first second : Slot σ} (h : Commutes first second) {usual s after : σ}
    {v : Value} (hrests : second.Rests usual s) (hput : first.put? v s = some after) :
    second.Rests usual after := by
  intro base hbase
  have hswap := h v base s
  rw [hput, hrests base hbase] at hswap
  simpa only [Option.bind_some, hput] using hswap

end Slot

/-! ### Sections -/

/-- Slots with keys of their own that do not get into each other's way. -/
structure Layout (slots : List (Slot σ)) (usual : σ) : Prop where
  keys : slots.Pairwise fun a b => a.key ≠ b.key
  commute : slots.Pairwise Slot.Commutes
  layered : ∀ slot ∈ slots, slot.Layered usual

def written (slots : List (Slot σ)) (s : σ) : Entries :=
  slots.filterMap fun slot => (slot.get? s).map fun v => (slot.key, v)

theorem lookup_written_of_ne {slots : List (Slot σ)} {key : String} (s : σ)
    (h : ∀ slot ∈ slots, key ≠ slot.key) : (written slots s).lookup key = none := by
  induction slots with
  | nil => rfl
  | cons slot rest ih =>
    obtain ⟨hslot, hrest⟩ := List.forall_mem_cons.mp h
    have hother : (key == slot.key) = false := beq_eq_false_iff_ne.mpr hslot
    have htail := ih hrest
    rw [written] at htail ⊢
    cases hget : slot.get? s <;> simp [hget, List.lookup_cons, hother, htail]

theorem lookup_written {slots : List (Slot σ)} (hkeys : slots.Pairwise fun a b => a.key ≠ b.key)
    (s : σ) {slot : Slot σ} (h : slot ∈ slots) :
    (written slots s).lookup slot.key = slot.get? s := by
  induction slots with
  | nil => cases h
  | cons first rest ih =>
    obtain ⟨hfirst, hrest⟩ := List.pairwise_cons.mp hkeys
    rcases List.mem_cons.mp h with rfl | hmem
    · have hnone := lookup_written_of_ne s hfirst
      rw [written] at hnone ⊢
      cases hget : slot.get? s <;> simp [hget, hnone]
    · have hother : (slot.key == first.key) = false :=
        beq_eq_false_iff_ne.mpr (hfirst slot hmem).symm
      have htail := ih hrest hmem
      rw [written] at htail ⊢
      cases hget : first.get? s <;> simp [hget, List.lookup_cons, hother, htail]

theorem isKey_of_written {slots : List (Slot σ)} {s : σ} {entry : String × Value}
    (h : entry ∈ written slots s) : isKey slots entry.1 = true := by
  obtain ⟨slot, hslot, hentry⟩ := List.mem_filterMap.mp h
  obtain ⟨v, -, rfl⟩ := Option.map_eq_some_iff.mp hentry
  exact List.any_eq_true.mpr ⟨slot, hslot, beq_self_eq_true slot.key⟩

/-- A section whose slots all find their usual values stays as it is. -/
theorem fill_restored {slots all : List (Slot σ)} {usual : σ} (hall : Layout all usual)
    (hsub : ∀ slot ∈ slots, slot ∈ all) :
    slots.foldlM (fun s slot => slot.fill? (written all usual) s) usual = some usual := by
  induction slots with
  | nil => rfl
  | cons slot rest ih =>
    obtain ⟨hslot, hrest⟩ := List.forall_mem_cons.mp hsub
    have hfill : slot.fill? (written all usual) usual = some usual := by
      rw [Slot.fill?, lookup_written hall.keys usual hslot]
      cases hget : slot.get? usual with
      | none => rfl
      | some base => exact (hall.layered slot hslot).restored hget
    rw [List.foldlM_cons, hfill]
    exact ih hrest

/-- One slot is filled from the merged entries like from those of the overlay alone. -/
theorem fill_merged {all : List (Slot σ)} {usual s : σ} (hall : Layout all usual)
    (overlay : Entries) {slot : Slot σ} (hslot : slot ∈ all) (hrests : slot.Rests usual s) :
    slot.fill? (Value.mergeEntries (written all usual) overlay
        ++ Value.newEntries (written all usual) overlay) s = slot.fill? overlay s := by
  rw [Slot.fill?, Slot.fill?, Value.lookup_merged, lookup_written hall.keys usual hslot]
  cases hget : slot.get? usual with
  | none => rfl
  | some base =>
    cases overlay.lookup slot.key with
    | none => exact hrests base hget
    | some v => exact (hall.layered slot hslot).overlaid hget v s

/-- So are all slots in a row: those that are still to be filled rest all the time. -/
theorem foldlM_merged {slots all : List (Slot σ)} {usual s : σ} (hall : Layout all usual)
    (overlay : Entries) (hsub : ∀ slot ∈ slots, slot ∈ all)
    (hcommute : slots.Pairwise Slot.Commutes) (hrests : ∀ slot ∈ slots, slot.Rests usual s) :
    slots.foldlM (fun s slot => slot.fill? (Value.mergeEntries (written all usual) overlay
        ++ Value.newEntries (written all usual) overlay) s) s
      = slots.foldlM (fun s slot => slot.fill? overlay s) s := by
  induction slots generalizing s with
  | nil => rfl
  | cons slot rest ih =>
    obtain ⟨hslot, hsub⟩ := List.forall_mem_cons.mp hsub
    obtain ⟨hfirst, hcommute⟩ := List.pairwise_cons.mp hcommute
    obtain ⟨hrest, hrests⟩ := List.forall_mem_cons.mp hrests
    rw [List.foldlM_cons, List.foldlM_cons, fill_merged hall overlay hslot hrest]
    cases hfill : slot.fill? overlay s with
    | none => rfl
    | some after =>
      refine ih hsub hcommute ?_
      intro other hother
      rw [Slot.fill?] at hfill
      split at hfill
      · exact (hrests other hother).after (hfirst other hother) hfill
      · cases hfill
        exact hrests other hother

theorem layered_ofSlots {slots : List (Slot σ)} {usual : σ} (h : Layout slots usual) :
    (Field.ofSlots slots usual).Layered usual := by
  constructor
  · intro base hwritten
    cases hwritten
    have hkeys : (written slots usual).all (fun e => isKey slots e.1) = true :=
      List.all_eq_true.mpr fun _ hmem => isKey_of_written hmem
    simp only [Field.ofSlots, putByKey?]
    rw [← written, hkeys]
    exact fill_restored h fun _ hslot => hslot
  · intro base hwritten v
    cases hwritten
    rw [← written]
    cases v with
    | table overlay =>
      have hrests : ∀ slot ∈ slots, slot.Rests usual usual := fun slot hslot _ hbase =>
        (h.layered slot hslot).restored hbase
      rw [Value.merge_table]
      simp only [Field.ofSlots, putByKey?]
      rw [Value.all_keys_merged (fun _ hmem => isKey_of_written hmem) overlay,
        foldlM_merged h overlay (fun _ hslot => hslot) h.commute hrests]
    | null | string | integer | float | boolean | datetime | array =>
      rw [Value.merge_of_overlay _ rfl]

/-! ### The sections of a configuration -/

section

open Slot (layered_of)

theorem layout_server : Layout serverSlots {} := by
  refine ⟨by decide, ?_, ?_⟩
  · simp [serverSlots, Slot.commutes_of]
  · simp only [serverSlots, List.forall_mem_cons]
    exact ⟨layered_of (Field.layered_text _) rfl, layered_of (Field.layered_uint64 _) rfl,
      layered_of (Field.layered_uint64 _) rfl, layered_of (Field.layered_boolean _) rfl,
      List.forall_mem_nil _⟩

theorem layout_image : Layout imageSlots {} := by
  refine ⟨by decide, ?_, ?_⟩
  · simp [imageSlots, Slot.commutes_of]
  · simp only [imageSlots, List.forall_mem_cons]
    exact ⟨layered_of (Field.layered_uint32 _) rfl, layered_of (Field.layered_uint64 _) rfl,
      List.forall_mem_nil _⟩

theorem layout_backend : Layout backendSlots {} := by
  refine ⟨by decide, ?_, ?_⟩
  · simp [backendSlots, Slot.commutes_of]
  · simp only [backendSlots, List.forall_mem_cons]
    exact ⟨layered_of (Field.layered_uint64 _) rfl, layered_of (Field.layered_none _) rfl,
      layered_of (Field.layered_uint64 _) rfl, List.forall_mem_nil _⟩

theorem layout_watermark : Layout watermarkSlots {} := by
  refine ⟨by decide, ?_, ?_⟩
  · simp [watermarkSlots, Slot.commutes_of]
  · simp only [watermarkSlots, List.forall_mem_cons]
    exact ⟨layered_of (Field.layered_uint32 _) rfl, layered_of (Field.layered_uint32 _) rfl,
      List.forall_mem_nil _⟩

theorem layout_logging : Layout loggingSlots {} := by
  refine ⟨by decide, ?_, ?_⟩
  · simp [loggingSlots, Slot.commutes_of]
  · simp only [loggingSlots, List.forall_mem_cons]
    exact ⟨layered_of (Field.layered_text _) rfl, layered_of (Field.layered_boolean _) rfl,
      List.forall_mem_nil _⟩

theorem layout_service : Layout serviceSlots {} := by
  refine ⟨by decide, ?_, ?_⟩
  · simp [serviceSlots, Slot.commutes_of]
  · simp only [serviceSlots, List.forall_mem_cons]
    exact ⟨layered_of (layered_ofSlots layout_server) rfl,
      layered_of (layered_ofSlots layout_image) rfl,
      layered_of (layered_ofSlots layout_backend) rfl,
      layered_of (layered_ofSlots layout_watermark) rfl,
      layered_of (layered_ofSlots layout_logging) rfl, List.forall_mem_nil _⟩

end

end ImagePipeline.Config

namespace ImagePipeline.ServiceConfig

open Config

theorem ofValue?_merge (overlay : Value) :
    ofValue? (stockValue.merge overlay) = ofValue? overlay :=
  (layered_ofSlots layout_service).overlaid rfl overlay

theorem validate_ok_iff {c : ServiceConfig} : c.validate = .ok () ↔ c.problem? = none := by
  unfold validate
  cases c.problem? <;> simp

theorem validate_of_problem {c : ServiceConfig} {problem : ConfigProblem}
    (h : c.problem? = some problem) : c.validate = .error (.invalid problem) := by
  unfold validate
  rw [h]

theorem ofValue_of_read {v : Value} {c : ServiceConfig} (h : ofValue? v = some c) :
    ofValue v = c.validate.map fun _ => c := by
  rw [ofValue, h]
  dsimp only
  cases c.validate <;> rfl

/-- To lay a value over the usual ones and read the result comes to the same as to read the value
alone, whatever the value: one that is not understood is malformed, one that is understood is
checked, and it is the configuration when nothing is wrong with it. -/
theorem resolve_layered (overlay : Value) :
    resolve (some overlay) = ofValue overlay ∧
      (ofValue? overlay = none → resolve (some overlay) = .error .malformed) ∧
      ∀ c, ofValue? overlay = some c →
        resolve (some overlay) = c.validate.map fun _ => c := by
  have hresolve : resolve (some overlay) = ofValue overlay := by
    rw [resolve, ofValue, ofValue, ofValue?_merge]
  refine ⟨hresolve, ?_, ?_⟩
  · intro hnone
    rw [hresolve, ofValue, hnone]
  · intro c hc
    rw [hresolve, ofValue_of_read hc]

/-- A quality in range is configured. One of zero is found by the checks, but beside a field of the
wrong kind they are not even made. -/
theorem resolve_layered_of_quality :
    let configured (quality : Int) : Value :=
      .table [("image", .table [("quality", .integer quality)])]
    let mistyped : Value :=
      .table [("image", .table [("quality", .integer 0)]), ("logging", .table [("ansi", .null)])]
    resolve (some (configured 75)) = .ok { image := { quality := 75 } } ∧
      resolve (some (configured 0)) = .error (.invalid .quality) ∧
        resolve (some mistyped) = .error .malformed := by
  intro configured mistyped
  have hgood : ofValue? (configured 75) = some { image := { quality := 75 } } := by
    decide +kernel
  have hzero : ofValue? (configured 0) = some { image := { quality := 0 } } := by
    decide +kernel
  have hpasses : ({ image := { quality := 75 } } : ServiceConfig).validate = .ok () :=
    validate_ok_iff.mpr (by decide +kernel)
  have hfails : ({ image := { quality := 0 } } : ServiceConfig).validate
      = .error (.invalid .quality) :=
    validate_of_problem (by decide +kernel)
  refine ⟨?_, ?_, ?_⟩
  · rw [(resolve_layered (configured 75)).2.2 _ hgood, hpasses]
    rfl
  · rw [(resolve_layered (configured 0)).2.2 _ hzero, hfails]
    rfl
  · exact (resolve_layered mistyped).2.1 (by decide +kernel)

end ImagePipeline.ServiceConfig
