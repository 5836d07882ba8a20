import ImagePipeline.Proofs.Options.Scanning

/-!
# The normal form of options

The options of a resize, of a watermark and of a blur are each a table: `told` says what the values
of the keys come to, and `Malformed` which values a key cannot have, with the error. So all three
readers have a normal form (`Options.normal_forms`).
-/

namespace ImagePipeline

namespace Options

/-- What a table says of a key: the value that is read there, and else the usual one. -/
def entry {β : Type} (table : String → Option String) (key : String) (read : String → Option β)
    (usual : β) : β :=
  ((table key).bind read).getD usual

theorem number_of_read {operation key value : String} {n : UInt32}
    (h : Text.uint32? value = some n) : number operation key value = .ok n := by
  rw [number, h]
  rfl

theorem colour_of_read {value : String} {c : Rgb} (h : Rgb.ofHex? value = some c) :
    colour value = .ok c := by
  rw [colour, h]

end Options

/-! ### Resizes -/

namespace ResizeOptions

def numberKeys : List String := ["w", "h", "l", "s", "p", "limit"]

def keys : List String := numberKeys ++ ["m", "color"]

inductive Malformed : String × String → OptionError → Prop where
  | number {key value : String} (numeric : key ∈ numberKeys) (unread : Text.uint32? value = none) :
      Malformed (key, value) (.invalidValue "resize" key value)
  | colour {value : String} (unread : Rgb.ofHex? value = none) :
      Malformed ("color", value) (.invalidColour value)

/-- The options that the values of the keys come to. -/
def told (table : String → Option String) : ResizeOptions where
  w := Options.entry table "w" Text.uint32? 0
  h := Options.entry table "h" Text.uint32? 0
  l := Options.entry table "l" Text.uint32? 0
  s := Options.entry table "s" Text.uint32? 0
  p := Options.entry table "p" Text.uint32? 0
  limit := Options.entry table "limit" (fun value => (Text.uint32? value).map (· != 0)) true
  mode := Options.entry table "m" (fun value => some (.ofName value)) .default
  colour := Options.entry table "color" (fun value => (Rgb.ofHex? value).map some) none

theorem tabular : Options.Tabular take keys Malformed told where
  refused := by
    intro pair e h a
    cases h with
    | number numeric unread =>
      simp only [numberKeys, List.mem_cons, List.not_mem_nil, or_false] at numeric
      rcases numeric with rfl | rfl | rfl | rfl | rfl | rfl <;>
        simp [take, Options.number, Options.valueOf, unread, bind, Except.bind]
    | colour unread => simp [take, Options.colour, unread, bind, Except.bind]
  taken := by
    intro key value hkey hsound table
    simp only [keys, List.mem_append, List.mem_cons, List.not_mem_nil, or_false] at hkey
    rcases hkey with hnumeric | rfl | rfl
    · obtain ⟨n, hread⟩ : ∃ n, Text.uint32? value = some n :=
        Option.ne_none_iff_exists'.mp fun hnone => hsound _ (.number hnumeric hnone)
      simp only [numberKeys, List.mem_cons, List.not_mem_nil, or_false] at hnumeric
      rcases hnumeric with rfl | rfl | rfl | rfl | rfl | rfl <;>
        simp [take, Options.number_of_read hread, told, Options.entry, hread]
    · simp [take, told, Options.entry]
    · obtain ⟨c, hread⟩ : ∃ c, Rgb.ofHex? value = some c :=
        Option.ne_none_iff_exists'.mp fun hnone => hsound _ (.colour hnone)
      simp [take, Options.colour_of_read hread, told, Options.entry, hread]
  passed := by
    intro key hkey value a
    simp only [keys, numberKeys, List.mem_append, List.mem_cons, not_or] at hkey
    simp [take, hkey]
  agree := by
    intro table table' h
    simp only [keys, numberKeys, List.forall_mem_append, List.forall_mem_cons] at h
    simp only [told, Options.entry, h]

end ResizeOptions

/-! ### Watermarks -/

namespace WatermarkOptions

def numberKeys : List String := ["fill", "size", "t"]

def keys : List String := numberKeys ++ ["rotate", "color", "text"]

inductive Malformed : String × String → OptionError → Prop where
  | number {key value : String} (numeric : key ∈ numberKeys) (unread : Text.uint32? value = none) :
      Malformed (key, value) (.invalidValue "watermark" key value)
  | angle {value : String} (unread : Text.int32? value = none) :
      Malformed ("rotate", value) (.invalidValue "watermark" "rotate" value)
  | colour {value : String} (unread : Rgb.ofHex? value = none) :
      Malformed ("color", value) (.invalidColour value)
  | text {value : String} {fault : Base64.Fault}
      (undecoded : Base64.decodeAny value.toUTF8.toList = .error fault) :
      Malformed ("text", value) (.textNotBase64 fault)
  | bytes {value : String} {bytes : List UInt8}
      (decoded : Base64.decodeAny value.toUTF8.toList = .ok bytes)
      (unread : String.fromUTF8? ⟨bytes.toArray⟩ = none) : Malformed ("text", value) .textNotUtf8

/-- The options that the values of the keys come to. -/
def told (table : String → Option String) : WatermarkOptions where
  text := Options.entry table "text" (fun value => (decodeText value).toOption) ""
  t := Options.entry table "t" Text.uint32? 100
  rotate := Options.entry table "rotate" (fun value => (Text.int32? value).map Int32.ofInt) 0
  fill := Options.entry table "fill" Text.uint32? 0
  size := Options.entry table "size" Text.uint32? 40
  colour := Options.entry table "color" Rgb.ofHex? Rgb.black

theorem decodeText_of_undecoded {value : String} {fault : Base64.Fault}
    (h : Base64.decodeAny value.toUTF8.toList = .error fault) :
    decodeText value = .error (.textNotBase64 fault) := by
  simp only [decodeText, h]

theorem decodeText_of_unread {value : String} {bytes : List UInt8}
    (h : Base64.decodeAny value.toUTF8.toList = .ok bytes)
    (hunread : String.fromUTF8? ⟨bytes.toArray⟩ = none) :
    decodeText value = .error .textNotUtf8 := by
  simp only [decodeText, h, hunread]

theorem exists_text {value : String} (hsound : ∀ e, ¬ Malformed ("text", value) e) :
    ∃ text, decodeText value = .ok text := by
  unfold decodeText
  split
  · exact absurd (.text ‹_›) (hsound _)
  · split
    · exact ⟨_, rfl⟩
    · exact absurd (.bytes ‹_› ‹_›) (hsound _)

theorem tabular : Options.Tabular take keys Malformed told where
  refused := by
    intro pair e h a
    cases h with
    | number numeric unread =>
      simp only [numberKeys, List.mem_cons, List.not_mem_nil, or_false] at numeric
      rcases numeric with rfl | rfl | rfl <;>
        simp [take, Options.number, Options.valueOf, unread, bind, Except.bind]
    | angle unread => simp [take, Options.valueOf, unread, bind, Except.bind]
    | colour unread => simp [take, Options.colour, unread, bind, Except.bind]
    | text undecoded =>
      have hread := decodeText_of_undecoded undecoded
      simp [take, hread, bind, Except.bind]
    | bytes decoded unread =>
      have hread := decodeText_of_unread decoded unread
      simp [take, hread, bind, Except.bind]
  taken := by
    intro key value hkey hsound table
    simp only [keys, List.mem_append, List.mem_cons, List.not_mem_nil, or_false] at hkey
    rcases hkey with hnumeric | rfl | rfl | rfl
    · obtain ⟨n, hread⟩ : ∃ n, Text.uint32? value = some n :=
        Option.ne_none_iff_exists'.mp fun hnone => hsound _ (.number hnumeric hnone)
      simp only [numberKeys, List.mem_cons, List.not_mem_nil, or_false] at hnumeric
      rcases hnumeric with rfl | rfl | rfl <;>
        simp [take, Options.number_of_read hread, told, Options.entry, hread]
    · obtain ⟨i, hread⟩ : ∃ i, Text.int32? value = some i :=
        Option.ne_none_iff_exists'.mp fun hnone => hsound _ (.angle hnone)
      simp [take, Options.valueOf, told, Options.entry, hread]
    · obtain ⟨c, hread⟩ : ∃ c, Rgb.ofHex? value = some c :=
        Option.ne_none_iff_exists'.mp fun hnone => hsound _ (.colour hnone)
      simp [take, Options.colour_of_read hread, told, Options.entry, hread]
    · obtain ⟨text, hread⟩ := exists_text hsound
      simp [take, told, Options.entry, hread, Except.toOption]
  passed := by
    intro key hkey value a
    simp only [keys, numberKeys, List.mem_append, List.mem_cons, not_or] at hkey
    simp [take, hkey]
  agree := by
    intro table table' h
    simp only [keys, numberKeys, List.forall_mem_append, List.forall_mem_cons] at h
    simp only [told, Options.entry, h]

end WatermarkOptions

/-! ### Blurs -/

namespace BlurOptions

def keys : List String := ["s", "r"]

inductive Malformed : String × String → OptionError → Prop where
  | number {key value : String} (numeric : key ∈ keys) (unread : Binary64.read? value = none) :
      Malformed (key, value) (.invalidValue "blur" key value)

/-- The options that the values of the keys come to. -/
def told (table : String → Option String) : BlurOptions where
  sigma := Options.entry table "s" Binary64.read? 0
  radius := Options.entry table "r" Binary64.read? 0

theorem tabular : Options.Tabular take keys Malformed told where
  refused := by
    intro pair e h a
    cases h with
    | number numeric unread =>
      simp only [keys, List.mem_cons, List.not_mem_nil, or_false] at numeric
      rcases numeric with rfl | rfl <;> simp [take, Options.valueOf, unread, bind, Except.bind]
  taken := by
    intro key value hkey hsound table
    obtain ⟨x, hread⟩ : ∃ x, Binary64.read? value = some x :=
      Option.ne_none_iff_exists'.mp fun hnone => hsound _ (.number hkey hnone)
    simp only [keys, List.mem_cons, List.not_mem_nil, or_false] at hkey
    rcases hkey with rfl | rfl <;> simp [take, Options.valueOf, told, Options.entry, hread]
  passed := by
    intro key hkey value a
    simp only [keys, List.mem_cons, not_or] at hkey
    simp [take, hkey]
  agree := by
    intro table table' h
    simp only [keys, List.forall_mem_cons] at h
    simp only [told, Options.entry, h]

end BlurOptions

/-- The readers of resizes, of watermarks and of blurs have a normal form: the first malformed value
of a key of theirs is the error, also when a later token has the key; without one the last token of
each key is all that counts, in any order; and tokens without an underscore, with nothing before it
or with another key may stand anywhere. -/
theorem Options.normal_forms :
    NormalForm ResizeOptions.parse ResizeOptions.keys ResizeOptions.Malformed ∧
      NormalForm WatermarkOptions.parse WatermarkOptions.keys WatermarkOptions.Malformed ∧
      NormalForm BlurOptions.parse BlurOptions.keys BlurOptions.Malformed :=
  ⟨ResizeOptions.tabular.normalForm (by decide) ResizeOptions.settle,
    WatermarkOptions.tabular.normalForm (by decide) WatermarkOptions.settle,
    BlurOptions.tabular.normalForm (by decide) BlurOptions.settle⟩

/-- The last width counts, and the tokens of no key do not. -/
example : ResizeOptions.parse ⟨"resize", ["w_1", "bare", "h_5", "_3", "q_1", "w_9"]⟩
    = ResizeOptions.parse ⟨"resize", ["w_9", "h_5"]⟩ := by rfl

/-- The first malformed value is the error, though another width stands behind it. -/
example : ResizeOptions.parse ⟨"resize", ["h_5", "w_x", "p_y", "w_9"]⟩
    = .error (.invalidValue "resize" "w" "x") := by rfl

end ImagePipeline
