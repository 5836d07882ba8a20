import ImagePipeline.Proofs.Text.Base64

/-!
# Base64 is read exactly

Reading accepts nothing but what writing makes. A byte string is cut into `sextets`, six bits each,
and the symbols of the sextets are what is written. Whatever an alphabet reads is the written form
of the bytes that it reads, with no more padding behind it than fills the last group
(`decode_ok_iff`, `decodeAny_ok_iff`). So a value in which the alphabets are mixed, bits are left
over behind the last byte or padding stands elsewhere is refused (`Garbled.refused`).
-/

namespace ImagePipeline.Base64

variable {a a' : Alphabet} {s bytes : List UInt8}

/-! ### Symbols -/

namespace Alphabet

theorem value?_eq_some_iff {b : UInt8} {v : Nat} :
    a.value? b = some v ↔ v < 64 ∧ b = a.symbol v := by
  constructor
  · intro h
    suffices hsymbol : v < 64 ∧ a.symbol v = b from ⟨hsymbol.1, hsymbol.2.symm⟩
    simp only [value?, UInt8.le_iff_toNat_le, UInt8.toNat_ofNat] at h
    split at h
    · cases h
      rw [symbol, if_pos (by omega)]
      exact ⟨by omega, ofNat_of_eq (by omega)⟩
    · split at h
      · cases h
        rw [symbol, if_neg (by omega), if_pos (by omega)]
        exact ⟨by omega, ofNat_of_eq (by omega)⟩
      · split at h
        · cases h
          rw [symbol, if_neg (by omega), if_neg (by omega), if_pos (by omega)]
          exact ⟨by omega, ofNat_of_eq (by omega)⟩
        · split at h
          · rename_i hlast
            cases h
            exact ⟨by decide, hlast.symm⟩
          · split at h
            · rename_i hlast
              cases h
              exact ⟨by decide, hlast.symm⟩
            · cases h
  · rintro ⟨hv, rfl⟩
    exact a.value?_symbol hv

/-- A symbol that two alphabets share means the same in both. -/
theorem value?_right_unique {b : UInt8} {v w : Nat} (h : a.value? b = some v)
    (h' : a'.value? b = some w) : v = w := by
  cases a <;> cases a' <;> grind [value?, symbol62, symbol63]

theorem symbol_inj {v w : Nat} (hv : v < 64) (hw : w < 64) (h : a.symbol v = a'.symbol w) :
    v = w := by
  have hread := a.value?_symbol hv
  rw [h] at hread
  exact value?_right_unique hread (a'.value?_symbol hw)

end Alphabet

theorem symbolAt_ok {b : UInt8} {offset v : Nat} (h : symbolAt a b offset = .ok v) :
    v < 64 ∧ b = a.symbol v := by
  unfold symbolAt at h
  split at h
  · rename_i w hvalue
    cases h
    exact Alphabet.value?_eq_some_iff.mp hvalue
  · cases h

/-! ### Sextets -/

/-- The bits of the bytes in sixes; zeros fill up the last six. -/
def sextets : List UInt8 → List Nat
  | [] => []
  | [x] => [x.toNat / 4, x.toNat % 4 * 16]
  | [x, y] => [x.toNat / 4, x.toNat % 4 * 16 + y.toNat / 16, y.toNat % 16 * 4]
  | x :: y :: z :: rest =>
    x.toNat / 4 :: (x.toNat % 4 * 16 + y.toNat / 16) :: (y.toNat % 16 * 4 + z.toNat / 64)
      :: z.toNat % 64 :: sextets rest

theorem encode_eq_map (a : Alphabet) (bytes : List UInt8) :
    encode a bytes = (sextets bytes).map a.symbol := by
  fun_induction sextets bytes with
  | case1 => rfl
  | case2 x => rfl
  | case3 x y => rfl
  | case4 x y z rest ih => simp only [encode, ih, List.map_cons]

theorem sextets_lt {v : Nat} (h : v ∈ sextets bytes) : v < 64 := by
  fun_induction sextets bytes with
  | case1 => cases h
  | case2 x =>
    have hx := x.toNat_lt
    simp only [List.mem_cons, List.not_mem_nil, or_false] at h
    omega
  | case3 x y =>
    have hx := x.toNat_lt
    have hy := y.toNat_lt
    simp only [List.mem_cons, List.not_mem_nil, or_false] at h
    omega
  | case4 x y z rest ih =>
    have hx := x.toNat_lt
    have hy := y.toNat_lt
    have hz := z.toNat_lt
    simp only [List.mem_cons] at h
    rcases h with h | h | h | h | h
    · omega
    · omega
    · omega
    · omega
    · exact ih h

theorem sextets_quadBytes {p q r s : Nat} (hp : p < 64) (hq : q < 64) (hr : r < 64) (hs : s < 64)
    (rest : List UInt8) :
    sextets (quadBytes p q r s ++ rest) = p :: q :: r :: s :: sextets rest := by
  have hx : p * 4 + q / 16 < 256 := by omega
  have hy : q % 16 * 16 + r / 4 < 256 := by omega
  have hz : r % 4 * 64 + s < 256 := by omega
  simp only [quadBytes, List.cons_append, List.nil_append, sextets, UInt8.toNat_ofNat',
    List.cons.injEq, and_true]
  omega

/-- A last sextet that no bytes leave behind so many others: bits are left over in it, or it has no
byte at all. -/
def Loose (others last : Nat) : Prop :=
  others % 4 = 0 ∨ others % 4 = 1 ∧ last % 16 ≠ 0 ∨ others % 4 = 2 ∧ last % 4 ≠ 0

theorem not_loose_of_sextets {front : List Nat} {v : Nat} (h : sextets bytes = front ++ [v]) :
    ¬ Loose front.length v := by
  fun_induction sextets bytes generalizing front with
  | case1 => simp at h
  | case2 x =>
    have hsplit : [_] ++ [_] = front ++ [v] := h
    obtain ⟨rfl, hv⟩ := List.append_inj' hsplit rfl
    cases hv
    simp only [Loose, List.length_cons, List.length_nil]
    omega
  | case3 x y =>
    have hsplit : [_, _] ++ [_] = front ++ [v] := h
    obtain ⟨rfl, hv⟩ := List.append_inj' hsplit rfl
    cases hv
    simp only [Loose, List.length_cons, List.length_nil]
    omega
  | case4 x y z rest ih =>
    cases hrest : (sextets rest).getLast? with
    | none =>
      rw [List.getLast?_eq_none_iff.mp hrest] at h
      have hsplit : [_, _, _] ++ [_] = front ++ [v] := h
      obtain ⟨rfl, -⟩ := List.append_inj' hsplit rfl
      simp [Loose]
    | some w =>
      obtain ⟨front', hfront'⟩ := List.getLast?_eq_some_iff.mp hrest
      rw [hfront', ← List.cons_append, ← List.cons_append, ← List.cons_append,
        ← List.cons_append] at h
      obtain ⟨rfl, hv⟩ := List.append_inj' h rfl
      cases hv
      have hloose := ih hfront'
      simp only [Loose, List.length_cons] at hloose ⊢
      omega

/-! ### The last group -/

theorem scanLast_padded {start i p : Nat} {g out : LastGroup} (hp : g.paddedFrom = some p)
    (h : scanLast a start i g s = .ok out) :
    (∃ k, s = List.replicate k padding) ∧ out.values = g.values := by
  induction s generalizing i g p with
  | nil =>
    cases h
    exact ⟨⟨0, rfl⟩, rfl⟩
  | cons b s ih =>
    rw [scanLast] at h
    split at h
    · rename_i hb
      split at h
      · cases h
      · obtain ⟨⟨k, hk⟩, hvalues⟩ := ih (p := (g.paddedFrom.getD i)) rfl h
        exact ⟨⟨k + 1, by rw [hb, hk, List.replicate_succ]⟩, hvalues⟩
    · rw [hp] at h
      cases h

/-- What has been scanned is symbols of the alphabet and padding behind them. -/
theorem scanLast_ok {start i : Nat} {g out : LastGroup} (hg : g.paddedFrom = none)
    (h : scanLast a start i g s = .ok out) :
    ∃ values k, (∀ v ∈ values, v < 64) ∧ s = values.map a.symbol ++ List.replicate k padding ∧
      out.values = g.values ++ values := by
  induction s generalizing i g with
  | nil =>
    cases h
    exact ⟨[], 0, List.forall_mem_nil _, rfl, (List.append_nil _).symm⟩
  | cons b s ih =>
    rw [scanLast] at h
    split at h
    · rename_i hb
      split at h
      · cases h
      · obtain ⟨⟨k, hk⟩, hvalues⟩ := scanLast_padded (p := (g.paddedFrom.getD i)) rfl h
        refine ⟨[], k + 1, List.forall_mem_nil _, ?_, ?_⟩
        · rw [hb, hk, List.map_nil, List.nil_append, List.replicate_succ]
        · rw [hvalues, List.append_nil]
    · rw [hg] at h
      obtain ⟨v, hsymbol, hrest⟩ := bind_ok h
      obtain ⟨hv, rfl⟩ := symbolAt_ok hsymbol
      obtain ⟨values, k, hlt, rfl, hvalues⟩ := ih (g := ⟨g.values ++ [v], a.symbol v, none⟩) rfl
        (by simpa only [hg] using hrest)
      refine ⟨v :: values, k, List.forall_mem_cons.mpr ⟨hv, hlt⟩, rfl, ?_⟩
      rw [hvalues, List.append_assoc, List.singleton_append]

theorem lastBytes_ok {start : Nat} {g : LastGroup} (hlt : ∀ v ∈ g.values, v < 64)
    (h : lastBytes start g = .ok bytes) :
    g.values = sextets bytes ∧ g.values.length = bytes.length + 1 ∧ bytes.length ≤ 3 := by
  unfold lastBytes at h
  split at h
  · rename_i p q hvalues
    simp only [hvalues, List.forall_mem_cons] at hlt
    split at h
    · cases h
      have hx : p * 4 + q / 16 < 256 := by omega
      rw [hvalues]
      refine ⟨?_, rfl, by simp⟩
      simp only [sextets, UInt8.toNat_ofNat', List.cons.injEq, and_true]
      omega
    · cases h
  · rename_i p q r hvalues
    simp only [hvalues, List.forall_mem_cons] at hlt
    split at h
    · cases h
      have hx : p * 4 + q / 16 < 256 := by omega
      have hy : q % 16 * 16 + r / 4 < 256 := by omega
      rw [hvalues]
      refine ⟨?_, rfl, by simp⟩
      simp only [sextets, UInt8.toNat_ofNat', List.cons.injEq, and_true]
      omega
    · cases h
  · rename_i p q r s hvalues
    simp only [hvalues, List.forall_mem_cons] at hlt
    cases h
    rw [hvalues]
    have hquad := sextets_quadBytes hlt.1 hlt.2.1 hlt.2.2.1 hlt.2.2.2.1 []
    rw [List.append_nil] at hquad
    exact ⟨hquad.symm, rfl, Nat.le_refl 3⟩
  · cases h

/-! ### All groups -/

theorem length_le_four (h : ∀ b₀ b₁ b₂ b₃ b₄ rest, s = b₀ :: b₁ :: b₂ :: b₃ :: b₄ :: rest → False) :
    s.length ≤ 4 := by
  rcases s with _ | ⟨b₀, _ | ⟨b₁, _ | ⟨b₂, _ | ⟨b₃, _ | ⟨b₄, rest⟩⟩⟩⟩⟩
  on_goal 6 => exact (h b₀ b₁ b₂ b₃ b₄ rest rfl).elim
  all_goals simp

theorem decodeGroups_ok {start : Nat} (h : decodeGroups a start s = .ok bytes) :
    ∃ k ≤ fullPadding bytes.length, s = encode a bytes ++ List.replicate k padding := by
  fun_induction decodeGroups a start s generalizing bytes with
  | case1 start b₀ b₁ b₂ b₃ b₄ rest ih =>
    obtain ⟨p, hread₀, h⟩ := bind_ok h
    obtain ⟨q, hread₁, h⟩ := bind_ok h
    obtain ⟨r, hread₂, h⟩ := bind_ok h
    obtain ⟨t, hread₃, h⟩ := bind_ok h
    obtain ⟨tail, htail, h⟩ := bind_ok h
    cases h
    obtain ⟨hp, rfl⟩ := symbolAt_ok hread₀
    obtain ⟨hq, rfl⟩ := symbolAt_ok hread₁
    obtain ⟨hr, rfl⟩ := symbolAt_ok hread₂
    obtain ⟨ht, rfl⟩ := symbolAt_ok hread₃
    obtain ⟨k, hk, hrest⟩ := ih htail
    refine ⟨k, ?_, ?_⟩
    · have hlength : (quadBytes p q r t ++ tail).length = tail.length + 3 := by
        rw [List.length_append, Nat.add_comm]
        rfl
      rwa [hlength, fullPadding_add_three]
    · rw [hrest, encode_eq_map, encode_eq_map, sextets_quadBytes hp hq hr ht]
      rfl
  | case2 start group hshort =>
    obtain ⟨g, hscan, hlast⟩ := bind_ok h
    obtain ⟨values, k, hlt, rfl, hvalues⟩ := scanLast_ok rfl hscan
    rw [List.nil_append] at hvalues
    subst hvalues
    obtain ⟨hsextets, hlength, hbytes⟩ := lastBytes_ok hlt hlast
    have hfour : g.values.length + k ≤ 4 := by
      have hgroup := length_le_four hshort
      simpa only [List.length_append, List.length_map, List.length_replicate] using hgroup
    refine ⟨k, ?_, by rw [encode_eq_map, hsextets]⟩
    -- the last group has one to three bytes
    have hsome : bytes ≠ [] := by
      rintro rfl
      rw [hsextets] at hlength
      cases hlength
    have hone := List.length_pos_iff.mpr hsome
    simp only [fullPadding]
    omega

theorem decode_ok_iff : decode a s = .ok bytes ↔
    ∃ k ≤ fullPadding bytes.length, s = encode a bytes ++ List.replicate k padding := by
  constructor
  · intro h
    unfold decode at h
    split at h
    · cases h
    · split at h
      · rename_i hempty
        cases h
        rw [List.isEmpty_iff.mp hempty]
        exact ⟨0, Nat.le_refl 0, rfl⟩
      · exact decodeGroups_ok h
  · rintro ⟨k, hk, rfl⟩
    exact decode_encode a bytes hk

theorem decode_of_decodeAny (h : decodeAny s = .ok bytes) : ∃ a, decode a s = .ok bytes := by
  unfold decodeAny at h
  split at h
  · rename_i out hstandard
    cases h
    exact ⟨.standard, hstandard⟩
  · exact ⟨.urlSafe, h⟩

theorem decodeAny_ok_iff : decodeAny s = .ok bytes ↔
    ∃ a, ∃ k ≤ fullPadding bytes.length, s = encode a bytes ++ List.replicate k padding := by
  constructor
  · intro h
    obtain ⟨a, hread⟩ := decode_of_decodeAny h
    exact ⟨a, decode_ok_iff.mp hread⟩
  · rintro ⟨a, k, hk, rfl⟩
    exact decodeAny_encode a bytes hk

/-! ### One spelling -/

/-- All bytes are symbols of the alphabet, or padding. -/
def Spelt (a : Alphabet) (s : List UInt8) : Prop := ∀ b ∈ s, b = padding ∨ a.value? b ≠ none

theorem spelt_encode (a : Alphabet) (bytes : List UInt8) (k : Nat) :
    Spelt a (encode a bytes ++ List.replicate k padding) := by
  intro b hb
  refine (mem_encode_padded hb).imp_right ?_
  rintro ⟨v, hv, rfl⟩
  rw [a.value?_symbol hv]
  exact Option.some_ne_none v

theorem decode_of_spelt (hspelt : Spelt a s) (h : decodeAny s = .ok bytes) :
    decode a s = .ok bytes := by
  obtain ⟨a', hread⟩ := decode_of_decodeAny h
  refine decode_mono ?_ hread
  intro b hb v hv
  rcases hspelt b hb with rfl | hknown
  · rw [Alphabet.value?_padding] at hv
    cases hv
  · obtain ⟨w, hw⟩ := Option.ne_none_iff_exists'.mp hknown
    rw [hw, Alphabet.value?_right_unique hv hw]

theorem padding_notMem_encode (a : Alphabet) (bytes : List UInt8) : padding ∉ encode a bytes := by
  intro hmem
  obtain ⟨v, hv, hsame⟩ := mem_encode hmem
  exact a.symbol_ne_padding hv hsame.symm

theorem count_padding (a : Alphabet) (bytes : List UInt8) (k : Nat) :
    (encode a bytes ++ List.replicate k padding).count padding = k := by
  rw [List.count_append, List.count_eq_zero.mpr (padding_notMem_encode a bytes),
    List.count_replicate_self, Nat.zero_add]

theorem spelt_unique {s' : List UInt8} (hs : Spelt a s) (hs' : Spelt a s')
    (hcount : s.count padding = s'.count padding) (h : decodeAny s = .ok bytes)
    (h' : decodeAny s' = .ok bytes) : s = s' := by
  obtain ⟨k, -, rfl⟩ := decode_ok_iff.mp (decode_of_spelt hs h)
  obtain ⟨k', -, rfl⟩ := decode_ok_iff.mp (decode_of_spelt hs' h')
  rw [count_padding, count_padding] at hcount
  rw [hcount]

/-! ### Garbled values -/

/-- Ways in which bytes fail to be base64. -/
inductive Garbled (s : List UInt8) : Prop where
  /-- There is a symbol that only the standard alphabet has, and one that only the other has. -/
  | mixed {b b' : UInt8} (mem : b ∈ s) (mem' : b' ∈ s)
      (standard : Alphabet.standard.value? b ≠ none ∧ Alphabet.urlSafe.value? b = none)
      (urlSafe : Alphabet.urlSafe.value? b' ≠ none ∧ Alphabet.standard.value? b' = none)
  /-- The last symbol has bits behind the last byte that are not zero, or is no byte at all. -/
  | loose {a : Alphabet} {values : List Nat} {v k : Nat} (lt : ∀ w ∈ values ++ [v], w < 64)
      (spelt : s = (values ++ [v]).map a.symbol ++ List.replicate k padding)
      (loose : Loose values.length v)
  /-- Padding stands in the first half of a group, with a full group or a symbol behind it. -/
  | misplaced {front back : List UInt8} (stands : s = front ++ padding :: back)
      (place : front.length % 4 < 2 ∨ 4 ≤ front.length % 4 + back.length ∨
        ∃ b ∈ back, b ≠ padding)

theorem known_of_encoded {k : Nat} {b : UInt8} {v : Nat}
    (h : b ∈ encode a bytes ++ List.replicate k padding) (hv : a'.value? b = some v) :
    a.value? b ≠ none := by
  rcases spelt_encode a bytes k b h with rfl | hknown
  · rw [Alphabet.value?_padding] at hv
    cases hv
  · exact hknown

/-- Padding that is written stands behind at least two symbols of the last group. -/
theorem padded_place {k : Nat} {front back : List UInt8} (hk : k ≤ fullPadding bytes.length)
    (h : encode a bytes ++ List.replicate k padding = front ++ padding :: back) :
    2 ≤ front.length % 4 ∧ front.length % 4 + back.length < 4 ∧ ∀ b ∈ back, b = padding := by
  obtain ⟨j, hfront, hback⟩ : ∃ j, front = encode a bytes ++ List.replicate j padding ∧
      List.replicate k padding = List.replicate j padding ++ padding :: back := by
    rcases List.append_eq_append_iff.mp h with ⟨more, hfront, hmore⟩ | ⟨more, hencode, hmore⟩
    · obtain ⟨j, hj⟩ : ∃ j, more = List.replicate j padding := by
        refine ⟨more.length, List.eq_replicate_of_mem ?_⟩
        intro b hb
        exact List.eq_of_mem_replicate (hmore ▸ List.mem_append_left _ hb)
      exact ⟨j, hj ▸ hfront, hj ▸ hmore⟩
    · -- the symbols would reach up to the padding or beyond it
      cases more with
      | nil =>
        refine ⟨0, ?_, hmore.symm⟩
        rw [hencode]
        simp
      | cons b more =>
        have hb : b = padding := (List.cons.inj hmore).1.symm
        have hmem : padding ∈ encode a bytes := by
          rw [hencode, hb]
          simp
        exact absurd hmem (padding_notMem_encode a bytes)
  have hlength := length_encode a bytes
  have hcount := congrArg List.length hback
  simp only [List.length_replicate, List.length_append, List.length_cons] at hcount
  have hfront_length : front.length = (encode a bytes).length + j := by
    rw [hfront, List.length_append, List.length_replicate]
  have htwo : fullPadding bytes.length ≤ 2 := by
    unfold fullPadding
    omega
  refine ⟨by omega, by omega, ?_⟩
  intro b hb
  apply List.eq_of_mem_replicate (n := k)
  rw [hback]
  exact List.mem_append_right _ (List.mem_cons_of_mem _ hb)

theorem eq_of_symbols {values : List Nat} {k k' : Nat} (hlt : ∀ v ∈ values, v < 64)
    (h : encode a bytes ++ List.replicate k padding
      = values.map a'.symbol ++ List.replicate k' padding) : sextets bytes = values := by
  have hsymbols : encode a bytes = values.map a'.symbol := by
    have hfilter := congrArg (List.filter (· ≠ padding)) h
    have hvalues : (values.map a'.symbol).filter (· ≠ padding) = values.map a'.symbol := by
      rw [List.filter_eq_self]
      intro b hb
      obtain ⟨v, hv, rfl⟩ := List.mem_map.mp hb
      simpa using a'.symbol_ne_padding (hlt v hv)
    have hencode : (encode a bytes).filter (· ≠ padding) = encode a bytes := by
      rw [List.filter_eq_self]
      intro b hb
      simpa using ne_of_mem_of_not_mem hb (padding_notMem_encode a bytes)
    simpa only [List.filter_append, hvalues, hencode, List.filter_replicate, ne_eq,
      not_true_eq_false, decide_false, Bool.false_eq_true, if_false, List.append_nil] using hfilter
  rw [encode_eq_map] at hsymbols
  refine List.ext_getElem ?_ ?_
  · simpa using congrArg List.length hsymbols
  · intro i hi hi'
    have hsame := List.getElem_of_eq hsymbols (i := i) (by simpa using hi)
    rw [List.getElem_map, List.getElem_map] at hsame
    exact Alphabet.symbol_inj (sextets_lt (List.getElem_mem hi)) (hlt _ (List.getElem_mem hi'))
      hsame

theorem Garbled.refused (h : Garbled s) : ∃ fault, decodeAny s = .error fault := by
  cases hread : decodeAny s with
  | error fault => exact ⟨fault, rfl⟩
  | ok bytes =>
    exfalso
    obtain ⟨a, k, hk, rfl⟩ := decodeAny_ok_iff.mp hread
    cases h with
    | mixed mem mem' standard urlSafe =>
      obtain ⟨v, hv⟩ := Option.ne_none_iff_exists'.mp standard.1
      obtain ⟨w, hw⟩ := Option.ne_none_iff_exists'.mp urlSafe.1
      cases a with
      | standard => exact known_of_encoded mem' hw urlSafe.2
      | urlSafe => exact known_of_encoded mem hv standard.2
    | loose lt spelt loose =>
      exact not_loose_of_sextets (eq_of_symbols lt spelt) loose
    | misplaced stands place =>
      obtain ⟨hfirst, hroom, hback⟩ := padded_place hk stands
      rcases place with hplace | hplace | ⟨b, hb, hsymbol⟩
      · omega
      · omega
      · exact hsymbol (hback b hb)

end ImagePipeline.Base64
