import ImagePipeline.Proofs.Options.Tokens
import ImagePipeline.Proofs.Text.Base64
import ImagePipeline.Proofs.Text.Bytes

/-!
# Watermark options told in tokens

The text of a watermark comes back from base64, whatever padding is put behind it
(`decodeText_encodeText`), and watermark options that meet their own rule are read from any tokens
that tell them (`WatermarkOptions.parse_of_tells`). The angle they stand for is the one asked for,
less a whole number of turns (`turn_congr`).
-/

namespace ImagePipeline

namespace WatermarkOptions

theorem toUTF8_encodeText (k : Nat) (text : String) :
    (encodeText k text).toUTF8.toList
      = Base64.encode .urlSafe text.toUTF8.toList ++ List.replicate k Base64.padding :=
  Text.toUTF8_ascii fun _ => Base64.toNat_encode_padded_lt

theorem decodeText_encodeText {k : Nat} {text : String}
    (hk : k ≤ Base64.fullPadding text.utf8ByteSize) :
    decodeText (encodeText k text) = .ok text := by
  rw [← Text.length_toUTF8] at hk
  rw [decodeText, toUTF8_encodeText, Base64.decodeAny_encode .urlSafe _ hk]
  simp only [Text.fromUTF8?_toUTF8]

theorem encodeText_injective (k : Nat) : Function.Injective (encodeText k) := by
  intro text text' h
  have hbytes := congrArg (fun value => value.toUTF8.toList) h
  simp only [toUTF8_encodeText] at hbytes
  have hsymbols : encodeText 0 text = encodeText 0 text' := by
    simp only [encodeText, List.append_cancel_right hbytes]
  have hread := congrArg decodeText hsymbols
  rw [decodeText_encodeText (Nat.zero_le _), decodeText_encodeText (Nat.zero_le _)] at hread
  exact Except.ok.inj hread

theorem unbroken_encodeText (k : Nat) (text : String) : Operation.Unbroken (encodeText k text) := by
  apply Operation.unbroken_of
  intro c hc
  rw [encodeText, String.toList_ofList, List.mem_map] at hc
  obtain ⟨b, hb, rfl⟩ := hc
  rcases Base64.mem_encode_padded hb with rfl | ⟨v, hv, rfl⟩
  · decide
  · interval_cases v <;> decide

/-- What is written for a key, with `k` bytes of padding behind the text. -/
def written (k : Nat) (o : WatermarkOptions) : String → Option String
  | "text" => some (encodeText k o.text)
  | "t" => some (Text.decimal o.t.toNat)
  | "rotate" => some (Text.signedDecimal o.rotate.toInt)
  | "fill" => some (Text.decimal o.fill.toNat)
  | "size" => some (Text.decimal o.size.toNat)
  | "color" => some o.colour.toHex
  | _ => none

theorem written_injective (k : Nat) : Function.Injective (written k) := by
  intro a b h
  have htext := encodeText_injective k (Option.some.inj (congrFun h "text"))
  have ht := Text.decimal_injective (Option.some.inj (congrFun h "t"))
  have hrotate := Text.signedDecimal_injective (Option.some.inj (congrFun h "rotate"))
  have hfill := Text.decimal_injective (Option.some.inj (congrFun h "fill"))
  have hsize := Text.decimal_injective (Option.some.inj (congrFun h "size"))
  have hcolour := Rgb.toHex_injective (Option.some.inj (congrFun h "color"))
  cases a
  cases b
  simp_all

theorem mem_tokens {k : Nat} {o : WatermarkOptions} {t : String} :
    t ∈ o.tokens k ↔
      ∃ key value, o.written k key = some value ∧ t = Options.token key value := by
  constructor
  · intro h
    simp only [tokens, List.mem_cons, List.not_mem_nil, or_false] at h
    rcases h with rfl | rfl | rfl | rfl | rfl | rfl
    · exact ⟨"text", _, rfl, rfl⟩
    · exact ⟨"t", _, rfl, rfl⟩
    · exact ⟨"rotate", _, rfl, rfl⟩
    · exact ⟨"fill", _, rfl, rfl⟩
    · exact ⟨"size", _, rfl, rfl⟩
    · exact ⟨"color", _, rfl, rfl⟩
  · rintro ⟨key, value, h, rfl⟩
    unfold written at h
    split at h
    case h_7 => cases h
    all_goals
      cases h
      simp [tokens, Options.numberToken]

theorem spelling (k : Nat) : Options.Spelling (written k) (tokens k) where
  injective := written_injective k
  mem_tokens := mem_tokens
  plain_key := by
    intro o key value h
    unfold written at h
    split at h <;> first | decide | cases h

theorem rotate_written (operation key : String) (i : Int32) :
    Options.valueOf operation key (Text.signedDecimal i.toInt)
      (Text.int32? (Text.signedDecimal i.toInt)) = .ok i.toInt := by
  rw [Text.int32?_signedDecimal]
  rfl

theorem taken {k : Nat} {o : WatermarkOptions} (hk : k ≤ Base64.fullPadding o.text.utf8ByteSize) :
    Options.Taken take (written k) o := by
  intro a key value h
  unfold written at h
  split at h
  case h_7 => cases h
  all_goals
    cases h
    simp only [take, Options.number_decimal, Options.colour_toHex, rotate_written,
      decodeText_encodeText hk, bind, Except.bind, pure, Except.pure, Int32.ofInt_toInt]
    refine ⟨_, rfl, rfl, ?_⟩
    intro other hother
    unfold written
    split <;> first | rfl | contradiction

/-! ### Reading what was told -/

/-- The rule for watermark options. -/
structure Proper (o : WatermarkOptions) : Prop where
  text : o.text ≠ ""
  t : o.t ≤ 100
  fill : o.fill ≤ 1
  one_le_size : 1 ≤ o.size
  size_le : o.size ≤ 1000

theorem Proper.settle_eq {o : WatermarkOptions} (h : o.Proper) : o.settle = .ok o := by
  have htext : ¬ o.text.isEmpty = true := by simpa using h.text
  have hsize : ¬ (o.size = 0 ∨ o.size > maxWatermarkSize) := by
    have hlow := UInt32.le_iff_toNat_le.mp h.one_le_size
    have hhigh := h.size_le
    rintro (hzero | hlarge)
    · simp [hzero] at hlow
    · exact absurd hlarge (UInt32.not_lt.mpr hhigh)
  rw [settle, if_neg htext, if_neg (UInt32.not_lt.mpr h.t), if_neg (UInt32.not_lt.mpr h.fill),
    if_neg hsize]

theorem parse_of_tells {k : Nat} {o : WatermarkOptions} (h : o.Proper)
    (hk : k ≤ Base64.fullPadding o.text.utf8ByteSize) {options : List String}
    (htells : Options.Tells options (o.tokens k) (({} : WatermarkOptions).tokens k)) :
    parse ⟨"watermark", options⟩ = .ok o := by
  have hstart : ∀ key, o.written k key = none → ({} : WatermarkOptions).written k key = none := by
    intro key hkey
    unfold written at hkey ⊢
    split <;> first | rfl | cases hkey
  have hscan := (spelling k).scan_params (taken hk) htells hstart
  rw [parse, ofParams, Operation.params, hscan]
  exact h.settle_eq

theorem unbroken_of_mem_tokens {k : Nat} {o : WatermarkOptions} {t : String} (h : t ∈ o.tokens k) :
    Operation.Unbroken t := by
  obtain ⟨key, value, hwritten, rfl⟩ := mem_tokens.mp h
  unfold written at hwritten
  split at hwritten <;> cases hwritten
  · exact .token (by decide) (unbroken_encodeText k o.text)
  · exact .token (by decide) (Operation.unbroken_decimal _)
  · exact .token (by decide) (Operation.unbroken_signedDecimal _)
  · exact .token (by decide) (Operation.unbroken_decimal _)
  · exact .token (by decide) (Operation.unbroken_decimal _)
  · exact .token (by decide) (Operation.unbroken_toHex _)

/-- The angle of the watermark is the one asked for, and lies in the turn below zero. -/
theorem turn_congr (o : WatermarkOptions) :
    o.turn.toInt % 360 = o.rotate.toInt % 360 ∧ -360 ≤ o.turn.toInt ∧ o.turn.toInt ≤ -1 := by
  have hturn : o.turn.toInt = o.rotate.toInt % 360 - 360 :=
    Int32.toInt_ofInt_of_le (by omega) (by omega)
  rw [hturn]
  omega

end WatermarkOptions

end ImagePipeline
