import ImagePipeline.Proofs.Options.NormalForm
import ImagePipeline.Proofs.Options.Watermark
import ImagePipeline.Proofs.Text.Base64Exact

/-!
# The text of a watermark

A value is read as a text exactly when it is the text's bytes in base64, in one of the two
alphabets, with padding up to the full one or less (`decodeText_ok_iff`). So the value decides the
text, and the text decides the value but for alphabet and padding; every other value is a decoding
failure, whatever options stand around it (`WatermarkOptions.text_in_base64`).
-/

namespace ImagePipeline

/-- A byte string in base64, with `k` bytes of padding behind it. -/
def Base64.written (a : Alphabet) (k : Nat) (bytes : List UInt8) : String :=
  String.ofList ((encode a bytes ++ List.replicate k padding).map fun b => Char.ofNat b.toNat)

theorem Base64.toUTF8_written (a : Alphabet) (k : Nat) (bytes : List UInt8) :
    (written a k bytes).toUTF8.toList = encode a bytes ++ List.replicate k padding :=
  Text.toUTF8_ascii fun _ => toNat_encode_padded_lt

theorem Text.toUTF8_injective : Function.Injective fun text : String => text.toUTF8.toList := by
  intro text text' h
  have hread := congrArg (fun bytes : List UInt8 => String.fromUTF8? ⟨bytes.toArray⟩) h
  simp only [fromUTF8?_toUTF8] at hread
  exact Option.some.inj hread

theorem Text.fromUTF8?_eq_some_iff {bytes : List UInt8} {text : String} :
    String.fromUTF8? ⟨bytes.toArray⟩ = some text ↔ bytes = text.toUTF8.toList := by
  constructor
  · intro h
    unfold String.fromUTF8? at h
    split at h
    · cases h
      rw [toList_eq_data]
      rfl
    · cases h
  · rintro rfl
    exact fromUTF8?_toUTF8 text

namespace WatermarkOptions

variable {value text : String}

/-! ### Values and texts -/

theorem decodeText_ok_iff : decodeText value = .ok text ↔
    ∃ a, ∃ k ≤ Base64.fullPadding text.utf8ByteSize,
      value = Base64.written a k text.toUTF8.toList := by
  constructor
  · intro h
    unfold decodeText at h
    split at h
    · cases h
    · rename_i bytes hread
      split at h
      · rename_i text' htext
        cases h
        obtain ⟨a, k, hk, hvalue⟩ := Base64.decodeAny_ok_iff.mp hread
        rw [Text.fromUTF8?_eq_some_iff] at htext
        subst htext
        rw [Text.length_toUTF8] at hk
        have hwritten := Base64.toUTF8_written a k text.toUTF8.toList
        exact ⟨a, k, hk, Text.toUTF8_injective (hvalue.trans hwritten.symm)⟩
      · cases h
  · rintro ⟨a, k, hk, rfl⟩
    rw [← Text.length_toUTF8] at hk
    rw [decodeText, Base64.toUTF8_written, Base64.decodeAny_encode a _ hk]
    simp only [Text.fromUTF8?_toUTF8]

theorem decodeAny_of_decodeText (h : decodeText value = .ok text) :
    Base64.decodeAny value.toUTF8.toList = .ok text.toUTF8.toList := by
  obtain ⟨a, k, hk, rfl⟩ := decodeText_ok_iff.mp h
  rw [← Text.length_toUTF8] at hk
  rw [Base64.toUTF8_written, Base64.decodeAny_encode a _ hk]

/-- Values that stand for no text: they are not base64, or what they encode is not UTF-8. -/
inductive Meaningless (value : String) : Prop where
  | garbled (garbled : Base64.Garbled value.toUTF8.toList)
  | notText {a : Base64.Alphabet} {bytes : List UInt8} {k : Nat}
      (written : value = Base64.written a k bytes) (padded : k ≤ Base64.fullPadding bytes.length)
      (invalid : ¬ ByteArray.IsValidUTF8 ⟨bytes.toArray⟩)

/-- A value without meaning is malformed, and a decoding failure. -/
theorem Meaningless.malformed (h : Meaningless value) :
    ∃ e, Malformed ("text", value) e ∧ e.toProcessError = .decode e.message := by
  cases h with
  | garbled garbled =>
    obtain ⟨fault, hread⟩ := garbled.refused
    exact ⟨_, .text hread, rfl⟩
  | @notText a bytes k written padded invalid =>
    subst written
    have hread : Base64.decodeAny (Base64.written a k bytes).toUTF8.toList = .ok bytes := by
      rw [Base64.toUTF8_written, Base64.decodeAny_encode a bytes padded]
    have hunread : String.fromUTF8? ⟨bytes.toArray⟩ = none := dif_neg invalid
    exact ⟨_, .bytes hread hunread, rfl⟩

/-! ### Values among other options -/

/-- What the tokens before a text come to is read, and the value of the text stops the reading with
a decoding failure. -/
def Refuses (value : String) : Prop :=
  ∃ e : OptionError, e.toProcessError = .decode e.message ∧ decodeText value = .error e ∧
    ∀ name before after o, Options.scan take {} (before.filterMap Operation.keyValue?) = .ok o →
      parse ⟨name, before ++ Options.token "text" value :: after⟩ = .error e

/-- The operation has the text, alone with the usual options or with what the tokens around it come
to; a text told later would override it. -/
structure ReadAs (value text : String) : Prop where
  alone : ∀ name, parse ⟨name, [Options.token "text" value]⟩ = .ok { text := text }
  among : ∀ name before after o,
    Options.scan take {} ((before ++ after).filterMap Operation.keyValue?) = .ok o →
      "text" ∉ (after.filterMap Operation.keyValue?).map Prod.fst →
        parse ⟨name, before ++ Options.token "text" value :: after⟩ = settle { o with text := text }

theorem params_token (name : String) (before after : List String) (value : String) :
    Operation.params ⟨name, before ++ Options.token "text" value :: after⟩
      = before.filterMap Operation.keyValue?
        ++ ("text", value) :: after.filterMap Operation.keyValue? := by
  rw [Operation.params, List.filterMap_append,
    List.filterMap_cons_some (Operation.keyValue?_token (by decide) value)]

theorem take_withText {o o' : WatermarkOptions} {pair : String × String} (hkey : pair.1 ≠ "text")
    (h : take o pair = .ok o') (text : String) :
    take { o with text := text } pair = .ok { o' with text := text } := by
  unfold take at h ⊢
  split at h
  · exact absurd rfl hkey
  all_goals
    first
      | obtain ⟨read, hread, h⟩ := bind_ok h
        cases h
        simp only [hread]
        rfl
      | cases h
        rfl

theorem scan_withText {o o' : WatermarkOptions} {pairs : List (String × String)}
    (hkeys : "text" ∉ pairs.map Prod.fst) (h : Options.scan take o pairs = .ok o') (text : String) :
    Options.scan take { o with text := text } pairs = .ok { o' with text := text } := by
  induction pairs generalizing o with
  | nil =>
    cases h
    rfl
  | cons pair pairs ih =>
    obtain ⟨next, htake, hrest⟩ := bind_ok h
    rw [List.map_cons, List.mem_cons, not_or] at hkeys
    rw [Options.scan_cons_ok (take_withText (Ne.symm hkeys.1) htake text)]
    exact ih hkeys.2 hrest

theorem readAs_of_decodeText (hsome : text ≠ "") (h : decodeText value = .ok text) :
    ReadAs value text := by
  have among : ∀ name before after o,
      Options.scan take {} ((before ++ after).filterMap Operation.keyValue?) = .ok o →
        "text" ∉ (after.filterMap Operation.keyValue?).map Prod.fst →
          parse ⟨name, before ++ Options.token "text" value :: after⟩
            = settle { o with text := text } := by
    intro name before after o hscan hafter
    rw [List.filterMap_append, Options.scan_append] at hscan
    obtain ⟨o', hbefore, hrest⟩ := bind_ok hscan
    have htake : take o' ("text", value) = .ok { o' with text := text } := by
      simp only [take, h]
      rfl
    rw [parse, ofParams, params_token, Options.scan_append, hbefore]
    show (Options.scan take o' (("text", value) :: _) >>= settle) = _
    rw [Options.scan_cons_ok htake, scan_withText hafter hrest]
    rfl
  refine ⟨?_, among⟩
  intro name
  have halone := among name [] [] {} rfl (by simp)
  rw [List.nil_append] at halone
  rw [halone, settle, if_neg (by simpa using hsome)]
  rfl

theorem refuses_of_malformed {e : OptionError} (h : Malformed ("text", value) e)
    (hdecode : e.toProcessError = .decode e.message) : Refuses value := by
  refine ⟨e, hdecode, ?_, ?_⟩
  · have htake := tabular.refused h {}
    cases hread : decodeText value with
    | error e' =>
      simp only [take, hread] at htake
      cases htake
      rfl
    | ok text =>
      simp only [take, hread] at htake
      cases htake
  · intro name before after o hbefore
    rw [parse, ofParams, params_token]
    change (Options.scan take (told fun _ => none) _ >>= settle) = _
    rw [tabular.scan_refused (tabular.sound_of_scan hbefore) h]
    rfl

/-- Texts in base64: a text that is not empty is read from either alphabet, with padding up to the
full one or less; what is read is written so; two values in the same alphabet, with the same
padding, have different texts; and a value without meaning is refused. -/
theorem text_in_base64 :
    (∀ (a : Base64.Alphabet) (text : String) (k : Nat), text ≠ "" →
      k ≤ Base64.fullPadding text.utf8ByteSize →
        ReadAs (Base64.written a k text.toUTF8.toList) text) ∧
      (∀ value text, value ≠ "" → decodeText value = .ok text →
        text ≠ "" ∧ ∃ a, ∃ k ≤ Base64.fullPadding text.utf8ByteSize,
          value = Base64.written a k text.toUTF8.toList) ∧
      (∀ (a : Base64.Alphabet) (value value' text : String),
        Base64.Spelt a value.toUTF8.toList → Base64.Spelt a value'.toUTF8.toList →
          value.toUTF8.toList.count Base64.padding = value'.toUTF8.toList.count Base64.padding →
            decodeText value = .ok text → decodeText value' = .ok text → value = value') ∧
      ∀ value, Meaningless value → Refuses value := by
  refine ⟨?_, ?_, ?_, ?_⟩
  · intro a text k hsome hk
    exact readAs_of_decodeText hsome (decodeText_ok_iff.mpr ⟨a, k, hk, rfl⟩)
  · intro value text hsome h
    obtain ⟨a, k, hk, hvalue⟩ := decodeText_ok_iff.mp h
    refine ⟨?_, a, k, hk, hvalue⟩
    rintro rfl
    -- the empty text has nothing to pad
    obtain rfl : k = 0 := Nat.le_zero.mp hk
    rw [Text.toList_eq_data] at hvalue
    exact hsome hvalue
  · intro a value value' text hspelt hspelt' hcount h h'
    exact Text.toUTF8_injective (Base64.spelt_unique hspelt hspelt' hcount
      (decodeAny_of_decodeText h) (decodeAny_of_decodeText h'))
  · intro value hmeaningless
    obtain ⟨e, hmalformed, hdecode⟩ := hmeaningless.malformed
    exact refuses_of_malformed hmalformed hdecode

/-- Four tildes with half of their padding, told alone and among other tokens, and the one standard
spelling of them with a single byte of padding; two alphabets in one value are refused. -/
theorem text_in_base64_of_tildes :
    ReadAs "fn5+fg=" "~~~~" ∧
      (∀ value, Base64.Spelt .standard value.toUTF8.toList →
        value.toUTF8.toList.count Base64.padding = 1 → decodeText value = .ok "~~~~" →
          value = "fn5+fg=") ∧
      Meaningless "fn5+fn5-" ∧ Refuses "fn5+fn5-" := by
  obtain ⟨hread, -, hunique, hrefused⟩ := text_in_base64
  have hpadded : 1 ≤ Base64.fullPadding "~~~~".utf8ByteSize := by decide
  have hwritten : Base64.written .standard 1 "~~~~".toUTF8.toList = "fn5+fg=" := by
    rw [Text.toList_eq_data]
    rfl
  have hspelt : Base64.Spelt .standard "fn5+fg=".toUTF8.toList := by
    rw [← hwritten, Base64.toUTF8_written]
    exact Base64.spelt_encode _ _ _
  have hone : "fn5+fg=".toUTF8.toList.count Base64.padding = 1 := by
    rw [← hwritten, Base64.toUTF8_written, Base64.count_padding]
  have hmixed : Meaningless "fn5+fn5-" := by
    have hbytes : "fn5+fn5-".toUTF8.toList = [102, 110, 53, 43, 102, 110, 53, 45] := by
      rw [Text.toList_eq_data]
      rfl
    have hplus : 43 ∈ "fn5+fn5-".toUTF8.toList := by
      rw [hbytes]
      decide
    have hminus : 45 ∈ "fn5+fn5-".toUTF8.toList := by
      rw [hbytes]
      decide
    exact .garbled (.mixed hplus hminus (by decide) (by decide))
  have htildes := hread .standard "~~~~" 1 (by decide) hpadded
  rw [hwritten] at htildes
  refine ⟨htildes, ?_, hmixed, hrefused _ hmixed⟩
  intro value hvalue hcount hdecode
  have hdecode' : decodeText "fn5+fg=" = .ok "~~~~" :=
    decodeText_ok_iff.mpr ⟨.standard, 1, hpadded, hwritten.symm⟩
  exact hunique .standard value _ _ hvalue hspelt (hcount.trans hone.symm) hdecode hdecode'

end WatermarkOptions

end ImagePipeline
