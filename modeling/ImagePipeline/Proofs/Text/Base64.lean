import ImagePipeline.Proofs.Failures
import ImagePipeline.Text.Base64
import Mathlib.Data.UInt
import Mathlib.Tactic.IntervalCases

/-!
# Base64 read back

Bytes that are written in base64 are read back, with as much padding behind them as fills the last
group (`length_encode`) or with less (`decode_encode`). What the one alphabet reads the other reads
alike where it knows the symbols (`decode_mono`), so a reader that tries the standard alphabet first
is not misled by the URL-safe one (`decodeAny_encode`).
-/

namespace ImagePipeline.Base64

/-! ### Symbols -/

namespace Alphabet

theorem value?_symbol (a : Alphabet) {v : Nat} (h : v < 64) : a.value? (a.symbol v) = some v := by
  cases a <;> interval_cases v <;> rfl

theorem value?_padding (a : Alphabet) : a.value? padding = none := by
  cases a <;> rfl

theorem symbol_ne_padding (a : Alphabet) {v : Nat} (h : v < 64) : a.symbol v ≠ padding := by
  intro hsame
  have hvalue := a.value?_symbol h
  rw [hsame, value?_padding] at hvalue
  cases hvalue

theorem toNat_symbol_lt (a : Alphabet) {v : Nat} (h : v < 64) : (a.symbol v).toNat < 128 := by
  cases a <;> interval_cases v <;> decide

/-- A URL-safe symbol is no standard one, or means the same there. -/
theorem standard_value?_urlSafe {v : Nat} (h : v < 64) :
    standard.value? (urlSafe.symbol v) = none ∨ standard.value? (urlSafe.symbol v) = some v := by
  interval_cases v <;> decide

end Alphabet

variable {a : Alphabet}

theorem symbolAt_symbol {v : Nat} (h : v < 64) (offset : Nat) :
    symbolAt a (a.symbol v) offset = .ok v := by
  rw [symbolAt, a.value?_symbol h]

theorem mem_encode {bytes : List UInt8} {b : UInt8} (h : b ∈ encode a bytes) :
    ∃ v < 64, b = a.symbol v := by
  fun_induction encode a bytes with
  | case1 => cases h
  | case2 x =>
    have hx := x.toNat_lt
    simp only [List.mem_cons, List.not_mem_nil, or_false] at h
    rcases h with rfl | rfl
    · exact ⟨_, by omega, rfl⟩
    · exact ⟨_, by omega, rfl⟩
  | case3 x y =>
    have hx := x.toNat_lt
    have hy := y.toNat_lt
    simp only [List.mem_cons, List.not_mem_nil, or_false] at h
    rcases h with rfl | rfl | rfl
    · exact ⟨_, by omega, rfl⟩
    · exact ⟨_, by omega, rfl⟩
    · exact ⟨_, by omega, rfl⟩
  | case4 x y z rest ih =>
    have hx := x.toNat_lt
    have hy := y.toNat_lt
    have hz := z.toNat_lt
    simp only [List.mem_cons] at h
    rcases h with rfl | rfl | rfl | rfl | h
    · exact ⟨_, by omega, rfl⟩
    · exact ⟨_, by omega, rfl⟩
    · exact ⟨_, by omega, rfl⟩
    · exact ⟨_, by omega, rfl⟩
    · exact ih h

/-- The symbols of a byte string fill its last group together with the full padding. -/
theorem length_encode (a : Alphabet) (bytes : List UInt8) :
    ((encode a bytes).length + fullPadding bytes.length) % 4 = 0 := by
  fun_induction encode a bytes with
  | case1 => rfl
  | case2 x => simp [fullPadding]
  | case3 x y => simp [fullPadding]
  | case4 x y z rest ih =>
    simp only [fullPadding, List.length_cons] at ih ⊢
    omega

/-! ### The last group -/

theorem scanLast_symbols {values : List Nat} (hvalues : ∀ v ∈ values, v < 64) (start i : Nat)
    (seen : List Nat) (last : UInt8) :
    ∃ last', ∀ rest, scanLast a start i ⟨seen, last, none⟩ (values.map a.symbol ++ rest)
      = scanLast a start (i + values.length) ⟨seen ++ values, last', none⟩ rest := by
  induction values generalizing i seen last with
  | nil =>
    refine ⟨last, ?_⟩
    intro rest
    rw [List.append_nil]
    rfl
  | cons v values ih =>
    obtain ⟨hv, hvalues⟩ := List.forall_mem_cons.mp hvalues
    obtain ⟨last', hrest⟩ := ih hvalues (i + 1) (seen ++ [v]) (a.symbol v)
    refine ⟨last', ?_⟩
    intro rest
    have hnext : i + 1 + values.length = i + (v :: values).length := by
      rw [List.length_cons]
      omega
    rw [List.map_cons, List.cons_append, scanLast, if_neg (a.symbol_ne_padding hv),
      symbolAt_symbol hv]
    rw [hnext, List.append_assoc] at hrest
    exact hrest rest

/-- Padding behind two symbols changes nothing that has been seen of them. -/
theorem scanLast_padding {i : Nat} (hi : 2 ≤ i) (start k : Nat) (g : LastGroup) :
    ∃ paddedFrom, scanLast a start i g (List.replicate k padding)
      = .ok ⟨g.values, g.last, paddedFrom⟩ := by
  induction k generalizing i g with
  | zero => exact ⟨g.paddedFrom, rfl⟩
  | succ k ih =>
    obtain ⟨paddedFrom, hrest⟩ :=
      ih (by omega : 2 ≤ i + 1) { g with paddedFrom := some (g.paddedFrom.getD i) }
    refine ⟨paddedFrom, ?_⟩
    rw [List.replicate_succ, scanLast, if_pos rfl, if_neg (by omega), hrest]

theorem decodeGroups_last {group : List UInt8} (h : group.length ≤ 4) (start : Nat) :
    decodeGroups a start group = scanLast a start 0 {} group >>= lastBytes start := by
  rw [decodeGroups]
  rintro b₀ b₁ b₂ b₃ b₄ rest rfl
  simp only [List.length_cons] at h
  omega

theorem decodeGroups_symbols {values : List Nat} (hvalues : ∀ v ∈ values, v < 64)
    (hsome : 2 ≤ values.length) (k : Nat) (hk : values.length + k ≤ 4) (start : Nat) :
    ∃ g : LastGroup, g.values = values ∧
      decodeGroups a start (values.map a.symbol ++ List.replicate k padding)
        = lastBytes start g := by
  obtain ⟨last, hsymbols⟩ := scanLast_symbols (a := a) hvalues start 0 [] 0
  obtain ⟨paddedFrom, hpadding⟩ := scanLast_padding (a := a)
    (by omega : 2 ≤ 0 + values.length) start k ⟨[] ++ values, last, none⟩
  refine ⟨⟨values, last, paddedFrom⟩, rfl, ?_⟩
  rw [decodeGroups_last (by simpa using hk), hsymbols, hpadding]
  rfl

/-! ### All groups -/

theorem ofNat_of_eq {n : Nat} {b : UInt8} (h : n = b.toNat) : UInt8.ofNat n = b := by
  rw [h, UInt8.ofNat_toNat]

theorem quadBytes_of_bytes (x y z : UInt8) :
    quadBytes (x.toNat / 4) (x.toNat % 4 * 16 + y.toNat / 16) (y.toNat % 16 * 4 + z.toNat / 64)
      (z.toNat % 64) = [x, y, z] := by
  have hx := x.toNat_lt
  have hy := y.toNat_lt
  have hz := z.toNat_lt
  rw [quadBytes, ofNat_of_eq (b := x) (by omega), ofNat_of_eq (b := y) (by omega),
    ofNat_of_eq (b := z) (by omega)]

theorem encode_ne_nil {bytes : List UInt8} (h : bytes ≠ []) : encode a bytes ≠ [] := by
  fun_cases encode a bytes with
  | case1 => exact absurd rfl h
  | case2 | case3 | case4 => exact List.cons_ne_nil _ _

theorem fullPadding_add_three (n : Nat) : fullPadding (n + 3) = fullPadding n := by
  rw [fullPadding, fullPadding, Nat.add_mod_right]

/-! The last group holds one byte, two or three. -/

theorem decodeGroups_one (x : UInt8) {k : Nat} (hk : k ≤ 2) (start : Nat) :
    decodeGroups a start (encode a [x] ++ List.replicate k padding) = .ok [x] := by
  have hx := x.toNat_lt
  have hvalues : ∀ v ∈ [x.toNat / 4, x.toNat % 4 * 16], v < 64 := by
    simp only [List.forall_mem_cons, List.not_mem_nil, false_implies, implies_true, and_true]
    omega
  obtain ⟨g, hg, hdecode⟩ := decodeGroups_symbols (a := a) hvalues (Nat.le_refl 2) k
    (by simp only [List.length_cons, List.length_nil]; omega) start
  have hlast : lastBytes start g = .ok [x] := by
    rw [lastBytes, hg]
    show (if x.toNat % 4 * 16 % 16 = 0 then _ else _) = _
    rw [if_pos (by omega), ofNat_of_eq (b := x) (by omega)]
  exact hdecode.trans hlast

theorem decodeGroups_two (x y : UInt8) {k : Nat} (hk : k ≤ 1) (start : Nat) :
    decodeGroups a start (encode a [x, y] ++ List.replicate k padding) = .ok [x, y] := by
  have hx := x.toNat_lt
  have hy := y.toNat_lt
  have hvalues : ∀ v ∈ [x.toNat / 4, x.toNat % 4 * 16 + y.toNat / 16, y.toNat % 16 * 4],
      v < 64 := by
    simp only [List.forall_mem_cons, List.not_mem_nil, false_implies, implies_true, and_true]
    omega
  obtain ⟨g, hg, hdecode⟩ := decodeGroups_symbols (a := a) hvalues (by simp) k
    (by simp only [List.length_cons, List.length_nil]; omega) start
  have hlast : lastBytes start g = .ok [x, y] := by
    rw [lastBytes, hg]
    show (if y.toNat % 16 * 4 % 4 = 0 then _ else _) = _
    rw [if_pos (by omega), ofNat_of_eq (b := x) (by omega), ofNat_of_eq (b := y) (by omega)]
  exact hdecode.trans hlast

theorem decodeGroups_three (x y z : UInt8) (start : Nat) :
    decodeGroups a start (encode a [x, y, z]) = .ok [x, y, z] := by
  have hx := x.toNat_lt
  have hy := y.toNat_lt
  have hz := z.toNat_lt
  have hvalues : ∀ v ∈ [x.toNat / 4, x.toNat % 4 * 16 + y.toNat / 16,
      y.toNat % 16 * 4 + z.toNat / 64, z.toNat % 64], v < 64 := by
    simp only [List.forall_mem_cons, List.not_mem_nil, false_implies, implies_true, and_true]
    omega
  obtain ⟨g, hg, hdecode⟩ := decodeGroups_symbols (a := a) hvalues (by simp) 0 (by simp) start
  have hlast : lastBytes start g = .ok [x, y, z] := by
    rw [lastBytes, hg]
    exact congrArg Except.ok (quadBytes_of_bytes x y z)
  rw [List.replicate_zero, List.append_nil] at hdecode
  exact hdecode.trans hlast

theorem decodeGroups_encode {bytes : List UInt8} (hsome : bytes ≠ []) {k : Nat}
    (hk : k ≤ fullPadding bytes.length) (start : Nat) :
    decodeGroups a start (encode a bytes ++ List.replicate k padding) = .ok bytes := by
  fun_induction encode a bytes generalizing start with
  | case1 => exact absurd rfl hsome
  | case2 x => exact decodeGroups_one x hk start
  | case3 x y => exact decodeGroups_two x y hk start
  | case4 x y z rest ih =>
    cases rest with
    | nil =>
      have hnone : k ≤ 0 := by simpa only [fullPadding, List.length_cons, List.length_nil] using hk
      obtain rfl : k = 0 := Nat.le_zero.mp hnone
      rw [List.replicate_zero, List.append_nil]
      exact decodeGroups_three x y z start
    | cons w rest =>
      have hk : k ≤ fullPadding (w :: rest).length := by
        simpa only [List.length_cons, fullPadding_add_three] using hk
      have hnext := ih (List.cons_ne_nil w rest) hk (start + 4)
      have hx := x.toNat_lt
      have hy := y.toNat_lt
      have hz := z.toNat_lt
      obtain ⟨b, tail, htail⟩ := List.exists_cons_of_ne_nil
        (List.append_ne_nil_of_left_ne_nil (encode_ne_nil (a := a) (List.cons_ne_nil w rest))
          (List.replicate k padding))
      simp only [List.cons_append, htail] at hnext ⊢
      rw [decodeGroups, symbolAt_symbol (by omega), symbolAt_symbol (by omega),
        symbolAt_symbol (by omega), symbolAt_symbol (by omega), hnext]
      exact congrArg (fun quad => Except.ok (quad ++ w :: rest)) (quadBytes_of_bytes x y z)

theorem strayByte?_eq_none {s : List UInt8}
    (h : ∀ b ∈ s, b = padding ∨ ∃ v, a.value? b = some v) : strayByte? a s = none := by
  unfold strayByte?
  split
  · rename_i b hlast
    rw [if_neg]
    rintro ⟨-, hpadding, hvalue⟩
    rcases h b (List.mem_of_getLast? hlast) with rfl | ⟨v, hv⟩
    · exact hpadding rfl
    · rw [hvalue] at hv
      cases hv
  · rfl

theorem mem_encode_padded {bytes : List UInt8} {k : Nat} {b : UInt8}
    (h : b ∈ encode a bytes ++ List.replicate k padding) :
    b = padding ∨ ∃ v < 64, b = a.symbol v := by
  rcases List.mem_append.mp h with h | h
  · exact .inr (mem_encode h)
  · exact .inl (List.eq_of_mem_replicate h)

theorem toNat_encode_padded_lt {bytes : List UInt8} {k : Nat} {b : UInt8}
    (h : b ∈ encode a bytes ++ List.replicate k padding) : b.toNat < 128 := by
  rcases mem_encode_padded h with rfl | ⟨v, hv, rfl⟩
  · decide
  · exact a.toNat_symbol_lt hv

/-- Padding up to the full one is read, and may be left out. -/
theorem decode_encode (a : Alphabet) (bytes : List UInt8) {k : Nat}
    (hk : k ≤ fullPadding bytes.length) :
    decode a (encode a bytes ++ List.replicate k padding) = .ok bytes := by
  have hstray : strayByte? a (encode a bytes ++ List.replicate k padding) = none := by
    apply strayByte?_eq_none
    intro b hb
    rcases mem_encode_padded hb with rfl | ⟨v, hv, rfl⟩
    · exact .inl rfl
    · exact .inr ⟨v, a.value?_symbol hv⟩
  rw [decode, hstray]
  by_cases hsome : bytes = []
  · subst hsome
    obtain rfl : k = 0 := Nat.le_zero.mp hk
    rfl
  · have hsymbols : (encode a bytes ++ List.replicate k padding).isEmpty = false := by
      rw [List.isEmpty_eq_false_iff]
      exact List.append_ne_nil_of_left_ne_nil (encode_ne_nil hsome) _
    show (if _ then _ else _) = _
    rw [hsymbols]
    exact decodeGroups_encode hsome hk 0

/-! ### Two alphabets -/

/-- What the one alphabet knows of these bytes the other one knows too. -/
def Agree (a a' : Alphabet) (s : List UInt8) : Prop :=
  ∀ b ∈ s, ∀ v, a.value? b = some v → a'.value? b = some v

section
variable {a' : Alphabet}

theorem Agree.symbolAt {s : List UInt8} (h : Agree a a' s) {b : UInt8} (hb : b ∈ s)
    {offset v : Nat} (hread : symbolAt a b offset = .ok v) : symbolAt a' b offset = .ok v := by
  unfold Base64.symbolAt at hread ⊢
  cases hvalue : a.value? b with
  | none =>
    rw [hvalue] at hread
    cases hread
  | some w =>
    rw [hvalue] at hread
    rw [h b hb w hvalue]
    exact hread

theorem scanLast_mono {s : List UInt8} (h : Agree a a' s) {start i : Nat} {g out : LastGroup}
    (hread : scanLast a start i g s = .ok out) : scanLast a' start i g s = .ok out := by
  induction s generalizing i g with
  | nil => exact hread
  | cons b s ih =>
    have hrest : Agree a a' s := fun c hc => h c (List.mem_cons_of_mem b hc)
    rw [scanLast] at hread ⊢
    split at hread
    · rename_i hpadding
      rw [if_pos hpadding]
      split at hread
      · cases hread
      · rename_i hplace
        rw [if_neg hplace]
        exact ih hrest hread
    · rename_i hpadding
      rw [if_neg hpadding]
      cases hpadded : g.paddedFrom with
      | some p =>
        rw [hpadded] at hread
        cases hread
      | none =>
        rw [hpadded] at hread
        cases hsymbol : Base64.symbolAt a b (start + i) with
        | error fault =>
          rw [hsymbol] at hread
          cases hread
        | ok v =>
          rw [hsymbol] at hread
          rw [h.symbolAt List.mem_cons_self hsymbol]
          exact ih hrest hread

theorem decodeGroups_mono {s : List UInt8} (h : Agree a a' s) {start : Nat} {out : List UInt8}
    (hread : decodeGroups a start s = .ok out) : decodeGroups a' start s = .ok out := by
  fun_induction decodeGroups a' start s generalizing out with
  | case1 start b₀ b₁ b₂ b₃ b₄ rest ih =>
    rw [decodeGroups] at hread
    obtain ⟨p, hp, hread⟩ := bind_ok hread
    obtain ⟨q, hq, hread⟩ := bind_ok hread
    obtain ⟨r, hr, hread⟩ := bind_ok hread
    obtain ⟨s, hs, hread⟩ := bind_ok hread
    obtain ⟨tail, htail, hread⟩ := bind_ok hread
    have hrest : Agree a a' (b₄ :: rest) := by
      intro b hb
      exact h b (List.mem_of_mem_drop (i := 4) hb)
    rw [h.symbolAt (by simp) hp, h.symbolAt (by simp) hq, h.symbolAt (by simp) hr,
      h.symbolAt (by simp) hs, ih hrest htail]
    exact hread
  | case2 start group hlast =>
    rw [decodeGroups] at hread
    · obtain ⟨g, hg, hread⟩ := bind_ok hread
      rw [scanLast_mono h hg]
      exact hread
    · exact hlast

theorem decode_mono {s : List UInt8} (h : Agree a a' s) {out : List UInt8}
    (hread : decode a s = .ok out) : decode a' s = .ok out := by
  have hstray : strayByte? a' s = none := by
    unfold decode strayByte? at hread
    unfold strayByte?
    split
    · rename_i b hlast
      rw [if_neg]
      rintro ⟨hlength, hpadding, hvalue'⟩
      -- a byte that the second alphabet does not know is no symbol of the first one either
      have hvalue : a.value? b = none := by
        rw [Option.eq_none_iff_forall_ne_some]
        intro v hv
        rw [h b (List.mem_of_getLast? hlast) v hv] at hvalue'
        cases hvalue'
      simp [hlast, hlength, hpadding, hvalue] at hread
    · rfl
  rw [decode] at hread
  rw [decode, hstray]
  split at hread
  · cases hread
  · show (if _ then _ else _) = _
    split at hread
    · rename_i hempty
      rw [if_pos hempty]
      exact hread
    · rename_i hempty
      rw [if_neg hempty]
      exact decodeGroups_mono h hread

end

theorem agree_standard_urlSafe (bytes : List UInt8) (k : Nat) :
    Agree .standard .urlSafe (encode .urlSafe bytes ++ List.replicate k padding) := by
  intro b hb v hv
  rcases mem_encode_padded hb with rfl | ⟨w, hw, rfl⟩
  · rw [Alphabet.value?_padding] at hv
    cases hv
  · rw [Alphabet.value?_symbol .urlSafe hw]
    rcases Alphabet.standard_value?_urlSafe hw with hnone | hsome
    · rw [hnone] at hv
      cases hv
    · rw [← hv, hsome]

/-- Either alphabet is read, with padding up to the full one. -/
theorem decodeAny_encode (a : Alphabet) (bytes : List UInt8) {k : Nat}
    (hk : k ≤ fullPadding bytes.length) :
    decodeAny (encode a bytes ++ List.replicate k padding) = .ok bytes := by
  have hread := decode_encode a bytes hk
  cases a with
  | standard => rw [decodeAny, hread]
  | urlSafe =>
    rw [decodeAny]
    split
    · rename_i out hstandard
      -- what the standard alphabet made of the text is what the URL-safe one makes of it
      have hsame := decode_mono (agree_standard_urlSafe bytes k) hstandard
      rw [← hsame, hread]
    · exact hread

end ImagePipeline.Base64
