import ImagePipeline.Picture.Blur
import ImagePipeline.Proofs.Number.Narrowing
import ImagePipeline.Proofs.Pipeline.Reading

/-!
# The weights of a blur

The weights are quotients of exponentials by their total. The exponents are negative or small: while
the deviation is small the furthest tap is near enough for its square not to wrap around
(`halfWidth_le`), and when the deviation is large so is the divisor (`argument_le`). So the terms of
the total are bounded and none exceeds it (`shows_total`), and a weight is a number between 0 and 1
(`usable_tap`). All that depends on the divisor not being zero, which it is for the smallest
deviations: twice their square is rounded to zero (`divisorOf_eq_zero_iff`), and then no tap is a
number (`isNaN_of_mem_taps`).
-/

namespace ImagePipeline.Blur

open Floating
open scoped ENNReal

/-- What a blur relies on: the exponential of zero is one, exponentials of numbers that are not
large are neither negative nor too large, what is not a number has none, and the logarithm of a
number below 1 is not positive, nor far below zero as long as the number is not too small. -/
structure Platform.Lawful (platform : Platform) : Prop where
  exp_zero {x : Float} (low : 0 ≤ x) (high : x ≤ 0) : platform.exp x = 1
  exp_bounds {x : Float} (h : x ≤ 64) : 0 ≤ platform.exp x ∧ platform.exp x ≤ 1e28
  exp_nan {x : Float} (h : x.isNaN = true) : (platform.exp x).isNaN = true
  log_bounds {x : Float} (low : 1e-16 ≤ x) (high : x < 1) :
    platform.log x ≤ 0 ∧ -platform.log x ≤ 37

/-- The largest deviation whose divisor is zero: twice its square is half of the least double. -/
def vanishingDeviation : Float := .ofBits 0x1E50000000000000

/-- A weight that a mean can be taken with. -/
def Usable (tap : Float32) : Prop := tap.isNaN = false ∧ 0 ≤ tap ∧ tap ≤ 1

variable {platform : Platform} {sigma : Float} {s d v w : ℝ≥0∞}

/-! ### Positions -/

theorem mem_positions {half : Nat} {x : Int} (h : x ∈ positions half) : x.natAbs ≤ half := by
  obtain ⟨i, hi, rfl⟩ := List.mem_map.mp h
  have hrange := List.mem_range.mp hi
  simp only [Int.ofNat_eq_natCast]
  omega

theorem zero_mem_positions (half : Nat) : 0 ∈ positions half :=
  List.mem_map.mpr ⟨half, List.mem_range.mpr (by omega), Int.sub_self _⟩

theorem length_positions (half : Nat) : (positions half).length = 2 * half + 1 := by
  rw [positions, List.length_map, List.length_range]

/-- The square of a position that is near enough does not wrap around. -/
theorem toInt_square {x : Int} (h : x.natAbs ≤ 3037000499) :
    (square x).toInt = (x.natAbs * x.natAbs : ℕ) := by
  have hsquare : x.natAbs * x.natAbs ≤ 3037000499 * 3037000499 := Nat.mul_le_mul h h
  have hposition : (Int64.ofInt x).toInt = x := by
    rw [Int64.toInt_ofInt]
    exact Int.bmod_eq_of_le (by rw [Int64.size]; omega) (by rw [Int64.size]; omega)
  rw [square, Int64.toInt_mul, hposition, ← Int.natAbs_mul_self]
  generalize x.natAbs * x.natAbs = n at hsquare ⊢
  exact Int.bmod_eq_of_le (by omega) (by omega)

/-! ### Weights -/

theorem stored_int64 {k : ℕ} (h : k ≤ 2 ^ 63) : stored .binary64 k ≤ 2 ^ 63 := by
  rw [← stored_two_pow (n := 63) (by decide)]
  exact stored_mono (by exact_mod_cast h)

/-- The argument of an exponential is not large: it is negative, or else the divisor is large. -/
theorem argument_le {x : Int} (hd : Shows (divisor sigma) .positive d) (hpos : d ≠ 0)
    (h : 0 ≤ (square x).toInt ∨ 2 ^ 57 ≤ d) :
    -Number.ofInt64 (square x) / divisor sigma ≤ 64 := by
  have hsixtyFour := shows_literal 64 (by decide)
  generalize hmagnitude : (square x).toInt.natAbs = k
  have hbound : k ≤ 2 ^ 63 := by
    have hlt := (square x).toInt_lt
    have hle := (square x).le_toInt
    omega
  have htop : stored .binary64 (k : ℝ≥0∞) ≠ ⊤ :=
    ne_top_of_le_ne_top (by finiteness) (stored_int64 hbound)
  rcases Int.le_total 0 (square x).toInt with hsign | hsign
  · have hk : (square x).toInt = k := by omega
    exact le_of_negative (shows_div (shows_neg (shows_ofInt64 hk)) hd hpos (.inl htop)) hsixtyFour
  · have hk : (square x).toInt = -k := by omega
    have hlarge : k = 0 ∨ 2 ^ 57 ≤ d := h.imp_left fun hnonneg => by omega
    have hquotient : stored .binary64 (k : ℝ≥0∞) / d ≤ 64 := by
      refine ENNReal.div_le_of_le_mul ?_
      rcases hlarge with rfl | hlarge
      · rw [Nat.cast_zero, stored_zero]
        exact zero_le
      · calc stored .binary64 (k : ℝ≥0∞)
            ≤ 2 ^ 63 := stored_int64 hbound
          _ = 64 * 2 ^ 57 := by norm_num
          _ ≤ 64 * d := by gcongr
    have hshown := shows_div (shows_neg (shows_ofInt64_negative hk)) hd hpos (.inl htop)
    refine (le_iff hshown hsixtyFour).mpr ((stored_mono hquotient).trans_eq ?_)
    exact hsixtyFour.stored_eq

set_option maxRecDepth 1500 in
theorem shows_weight (hlawful : platform.Lawful) {x : Int}
    (h : -Number.ofInt64 (square x) / divisor sigma ≤ 64) :
    ∃ v, Shows (weight sigma x platform) .positive v ∧ v ≤ 2 ^ 94 := by
  obtain ⟨hlow, hhigh⟩ := hlawful.exp_bounds h
  obtain ⟨v, hv⟩ := exists_of_nonneg hlow
  have hunpack : (1e28 : Float).toModel.unpack
      = .finite .positive 4547473508864641 41 (by decide) := rfl
  refine ⟨v, hv, ((le_iff hv (shows_of_unpack hunpack rfl)).mp hhigh).trans ?_⟩
  rw [← ENNReal.ofReal_ofNat, ← ENNReal.ofReal_pow zero_le_two]
  exact ENNReal.ofReal_le_ofReal (by norm_num)

theorem shows_neg_square_zero : Shows (-Number.ofInt64 (square 0)) .negative 0 := by
  have hsquare : (square 0).toInt = ((0 : ℕ) : ℤ) := by decide
  have hshown := shows_neg (shows_ofInt64 hsquare)
  rwa [Nat.cast_zero, stored_zero] at hshown

theorem weight_zero (hlawful : platform.Lawful) (hd : Shows (divisor sigma) .positive d)
    (hpos : d ≠ 0) : weight sigma 0 platform = 1 := by
  have hquotient := shows_div shows_neg_square_zero hd hpos (.inl ENNReal.zero_ne_top)
  rw [ENNReal.zero_div, stored_zero] at hquotient
  have hshown : Shows (-Number.ofInt64 (square 0) / divisor sigma) .positive 0 :=
    hquotient.of_zero
  exact hlawful.exp_zero ((le_iff shows_zero hshown).mpr le_rfl)
    ((le_iff hshown shows_zero).mpr le_rfl)

/-! ### The total -/

/-- Adding up loses nothing that is there already, and as long as there are not too many terms the
total is finite. -/
theorem shows_total {weights : List Float} {start : Float} {a : ℝ≥0∞} {k : ℕ}
    (hstart : Shows start .positive a) (ha : a ≤ k * 2 ^ 94)
    (h : ∀ weight ∈ weights, ∃ v, Shows weight .positive v ∧ v ≤ 2 ^ 94)
    (hfew : k + weights.length < 2 ^ 53) :
    ∃ total, Shows (weights.foldl (fun a w => a + w) start) .positive total ∧ a ≤ total ∧
      total ≠ ⊤ ∧ ∀ weight ∈ weights, ∃ v, Shows weight .positive v ∧ v ≤ total := by
  induction weights generalizing start a k with
  | nil =>
    have htop : (k : ℝ≥0∞) * 2 ^ 94 ≠ ⊤ := by finiteness
    exact ⟨a, hstart, le_rfl, ne_top_of_le_ne_top htop ha, nofun⟩
  | cons first rest ih =>
    obtain ⟨⟨v, hv, hbound⟩, hrest⟩ := List.forall_mem_cons.mp h
    rw [List.length_cons] at hfew
    have hsum := shows_add hstart hv
    have hnext : stored .binary64 (a + v) ≤ ((k + 1 : ℕ) : ℝ≥0∞) * 2 ^ 94 := by
      rw [← stored_natCast_mul (m := k + 1) (by omega) (by decide), Nat.cast_succ, add_mul,
        one_mul]
      exact stored_mono (add_le_add ha hbound)
    obtain ⟨total, htotal, hgrown, htop, hterms⟩ := ih hsum hnext hrest (by omega)
    have hleft : a ≤ stored .binary64 (a + v) :=
      hstart.stored_eq.symm.trans_le (stored_mono le_self_add)
    have hright : v ≤ stored .binary64 (a + v) :=
      hv.stored_eq.symm.trans_le (stored_mono le_add_self)
    refine ⟨total, htotal, hleft.trans hgrown, htop, List.forall_mem_cons.mpr ⟨?_, hterms⟩⟩
    exact ⟨v, hv, hright.trans hgrown⟩

/-- One term that is not a number spoils the total. -/
theorem isNaN_total {weights : List Float} {start : Float}
    (h : start.isNaN = true ∨ ∃ weight ∈ weights, weight.isNaN = true) :
    (weights.foldl (fun a w => a + w) start).isNaN = true := by
  induction weights generalizing start with
  | nil =>
    rcases h with hstart | ⟨weight, hmem, -⟩
    · exact hstart
    · cases hmem
  | cons first rest ih =>
    refine ih ?_
    rcases h with hstart | ⟨weight, hmem, hweight⟩
    · exact .inl (isNaN_add_left hstart)
    · rcases List.mem_cons.mp hmem with rfl | hmem
      · exact .inl (isNaN_add_right hweight)
      · exact .inr ⟨weight, hmem, hweight⟩

/-! ### Taps -/

theorem usable_tap {weight total : Float} (hweight : Shows weight .positive v)
    (htotal : Shows total .positive w) (hle : v ≤ w) (hzero : w ≠ 0) (htop : w ≠ ⊤) :
    Usable (Number.toSingle (weight / total)) := by
  have hquotient : v / w ≤ 1 := ENNReal.div_le_of_le_mul (by rwa [one_mul])
  have hstored : stored .binary64 (v / w) ≤ 1 :=
    (stored_mono hquotient).trans_eq shows_one.stored_eq
  have hsingle : stored .binary32 (stored .binary64 (v / w)) ≤ 1 :=
    (stored_mono hstored).trans_eq showsSingle_one.stored_eq
  have hshown := shows_toSingle (shows_div hweight htotal hzero (.inr htop))
  exact ⟨hshown.isNaN, (single_le_iff showsSingle_zero hshown).mpr zero_le,
    (single_le_iff hshown showsSingle_one).mpr hsingle⟩

def weights (sigma : Float) (half : Nat) (platform : Platform) : List Float :=
  (positions half).map fun x => weight sigma x platform

theorem taps_eq (sigma : Float) (half : Nat) (platform : Platform) :
    taps sigma half platform = (weights sigma half platform).map fun w =>
      Number.toSingle (w / (weights sigma half platform).foldl (fun a w => a + w) 0) := rfl

theorem length_weights (sigma : Float) (half : Nat) (platform : Platform) :
    (weights sigma half platform).length = 2 * half + 1 := by
  rw [weights, List.length_map, length_positions]

theorem weight_zero_mem (sigma : Float) (half : Nat) (platform : Platform) :
    weight sigma 0 platform ∈ weights sigma half platform :=
  List.mem_map.mpr ⟨0, zero_mem_positions half, rfl⟩

theorem length_taps (sigma : Float) (half : Nat) (platform : Platform) :
    (taps sigma half platform).length = 2 * half + 1 := by
  rw [taps_eq, List.length_map, length_weights]

theorem usable_of_mem_taps (hlawful : platform.Lawful) {half : Nat}
    (hd : Shows (divisor sigma) .positive d) (hpos : d ≠ 0) (hfew : half < 2 ^ 32)
    (h : half ≤ 9 * 2 ^ 28 ∨ 2 ^ 57 ≤ d) {tap : Float32}
    (htap : tap ∈ taps sigma half platform) : Usable tap := by
  have hweights : ∀ term ∈ weights sigma half platform,
      ∃ v, Shows term .positive v ∧ v ≤ 2 ^ 94 := by
    intro term hterm
    obtain ⟨x, hx, rfl⟩ := List.mem_map.mp hterm
    refine shows_weight hlawful (argument_le hd hpos (h.imp_left fun hnear => ?_))
    rw [toInt_square ((mem_positions hx).trans (hnear.trans (by decide)))]
    exact Int.natCast_nonneg _
  have hlength : 0 + (weights sigma half platform).length < 2 ^ 53 := by
    rw [length_weights]
    omega
  obtain ⟨total, htotal, -, htop, hterms⟩ :=
    shows_total shows_zero (k := 0) zero_le hweights hlength
  have hsome : total ≠ 0 := by
    obtain ⟨v, hv, hle⟩ := hterms _ (weight_zero_mem sigma half platform)
    rw [weight_zero hlawful hd hpos] at hv
    rintro rfl
    exact absurd ((le_iff hv shows_zero).mpr hle) (by decide)
  rw [taps_eq] at htap
  obtain ⟨term, hterm, rfl⟩ := List.mem_map.mp htap
  obtain ⟨v, hv, hle⟩ := hterms term hterm
  exact usable_tap hv htotal hle hsome htop

/-- Over a divisor that is zero the weight of the centre is not a number, and so no tap is. -/
theorem isNaN_of_mem_taps (hlawful : platform.Lawful) {half : Nat}
    (hd : Shows (divisor sigma) .positive 0) {tap : Float32}
    (htap : tap ∈ taps sigma half platform) : tap.isNaN = true := by
  have hcentre : (weight sigma 0 platform).isNaN = true :=
    hlawful.exp_nan (isNaN_zero_div_zero shows_neg_square_zero hd)
  have htotal : ((weights sigma half platform).foldl (fun a w => a + w) 0).isNaN = true :=
    isNaN_total (.inr ⟨_, weight_zero_mem sigma half platform, hcentre⟩)
  rw [taps_eq] at htap
  obtain ⟨term, -, rfl⟩ := List.mem_map.mp htap
  exact isNaN_toSingle (isNaN_div_right htotal)

/-! ### The divisor -/

/-- The magnitude of the divisor, which is rounded twice. -/
noncomputable def divisorOf (s : ℝ≥0∞) : ℝ≥0∞ := stored .binary64 (stored .binary64 (s + s) * s)

theorem shows_divisor (hs : Shows sigma .positive s) (hpos : s ≠ 0) :
    Shows (divisor sigma) .positive (divisorOf s) := by
  have hdoubled : s ≤ stored .binary64 (s + s) :=
    hs.stored_eq.symm.trans_le (stored_mono le_self_add)
  have hsome : stored .binary64 (s + s) ≠ 0 := ((pos_iff_ne_zero.mpr hpos).trans_le hdoubled).ne'
  have hshown : Shows (2 * sigma) .positive (stored .binary64 (s + s)) := by
    rw [← two_mul]
    exact shows_mul (shows_literal 2 (by decide)) hs (.inl two_ne_zero) (.inr hpos)
  exact shows_mul hshown hs (.inl hsome) (.inr hpos)

/-- The product is rounded to zero when it is at most half of the least double. -/
theorem divisorOf_eq_zero_iff : divisorOf s = 0 ↔ s ≤ .ofReal (2 ^ (-538 : ℤ)) := by
  have hdouble : stored .binary64 (.ofReal (2 ^ (-538 : ℤ)) + .ofReal (2 ^ (-538 : ℤ)))
      = .ofReal (2 ^ (-537 : ℤ)) := by
    rw [← ENNReal.ofReal_add (by positivity) (by positivity), ← two_mul,
      ← zpow_one_add₀ two_ne_zero]
    exact stored_two_zpow (by decide) (by decide)
  have hproduct : ENNReal.ofReal (2 ^ (-537 : ℤ)) * .ofReal (2 ^ (-538 : ℤ))
      = .ofReal (2 ^ (-1075 : ℤ)) := by
    rw [← ENNReal.ofReal_mul (by positivity), ← zpow_add₀ two_ne_zero]
    rfl
  have hleast : divisorOf s = 0 ↔ stored .binary64 (s + s) * s ≤ .ofReal (2 ^ (-1075 : ℤ)) :=
    stored_eq_zero_iff
  rw [hleast]
  constructor
  · intro hle
    by_contra hlarge
    have hlt := not_le.mp hlarge
    have hpos : ENNReal.ofReal (2 ^ (-537 : ℤ)) ≠ 0 :=
      (ENNReal.ofReal_pos.mpr (by positivity)).ne'
    have hdoubled : ENNReal.ofReal (2 ^ (-537 : ℤ)) ≤ stored .binary64 (s + s) :=
      hdouble.symm.trans_le (stored_mono (by gcongr))
    have hmore : ENNReal.ofReal (2 ^ (-1075 : ℤ)) < stored .binary64 (s + s) * s :=
      calc ENNReal.ofReal (2 ^ (-1075 : ℤ))
          = .ofReal (2 ^ (-537 : ℤ)) * .ofReal (2 ^ (-538 : ℤ)) := hproduct.symm
        _ < .ofReal (2 ^ (-537 : ℤ)) * s :=
            ENNReal.mul_lt_mul_right hpos ENNReal.ofReal_ne_top hlt
        _ ≤ stored .binary64 (s + s) * s := by gcongr
    exact hmore.not_ge hle
  · intro hle
    have hdoubled : stored .binary64 (s + s) ≤ .ofReal (2 ^ (-537 : ℤ)) :=
      (stored_mono (by gcongr)).trans_eq hdouble
    rw [← hproduct]
    exact mul_le_mul' hdoubled hle

theorem le_divisorOf (h : 2 ^ 28 ≤ s) : 2 ^ 57 ≤ divisorOf s := by
  have hdoubled : 2 ^ 29 ≤ stored .binary64 (s + s) := by
    rw [← stored_two_pow (n := 29) (by decide)]
    exact stored_mono ((by norm_num : (2 : ℝ≥0∞) ^ 29 = 2 ^ 28 + 2 ^ 28).trans_le (by gcongr))
  rw [← stored_two_pow (n := 57) (by decide)]
  refine stored_mono ?_
  calc (2 : ℝ≥0∞) ^ 57
      = 2 ^ 29 * 2 ^ 28 := by norm_num
    _ ≤ stored .binary64 (s + s) * s := mul_le_mul' hdoubled h

theorem shows_vanishing : Shows vanishingDeviation .positive (.ofReal (2 ^ (-538 : ℤ))) := by
  have hunpack : vanishingDeviation.toModel.unpack
      = .finite .positive (2 ^ 52) (-590) (by decide) := rfl
  refine shows_of_unpack hunpack ?_
  rw [Nat.cast_pow, Nat.cast_ofNat, ← zpow_natCast, ← zpow_add₀ two_ne_zero]
  rfl

/-! ### The half-width -/

theorem floor_le {x : Float} {n : ℕ} (hx : Shows x .positive v) (h : v ≤ n) :
    Number.floor x ≤ n := by
  rw [Number.floor, toNat_toUInt64 hx]
  exact wholePart_le h

theorem ceiling_le {x : Float} {n : ℕ} (hx : Shows x .positive v) (h : v ≤ n) :
    Number.ceiling x ≤ n + 1 := by
  have hwhole := (toNat_toUInt64 hx).trans_le (wholePart_le h)
  unfold Number.ceiling
  dsimp only
  split <;> omega

/-- Not even the square root of `-2 log a` is large, as the smallest amplitude above zero is not
too small. -/
theorem shows_reach (hlawful : platform.Lawful) {a : Float} (ha : Shows a .positive v)
    (hlow : .ofReal (2 ^ (-53 : ℤ)) ≤ v) (hhigh : a < 1) :
    ∃ r, Shows (-2 * platform.log a).sqrt .positive r ∧ r ≤ 9 := by
  have hleast : (1e-16 : Float) ≤ a := by
    have hunpack : (1e-16 : Float).toModel.unpack
        = .finite .positive 8112963841460668 (-106) (by decide) := rfl
    refine (le_iff (shows_of_unpack hunpack rfl) ha).mpr (le_trans ?_ hlow)
    exact ENNReal.ofReal_le_ofReal (by norm_num [zpow_neg])
  obtain ⟨hnonpos, hbound⟩ := hlawful.log_bounds hleast hhigh
  obtain ⟨l, hl⟩ := exists_of_nonpos hnonpos
  have hle : l ≤ 37 := (le_iff (shows_neg hl) (shows_literal 37 (by decide))).mp hbound
  have htop : l ≠ ⊤ := ne_top_of_le_ne_top ENNReal.ofNat_ne_top hle
  have hproduct := shows_mul (shows_neg (shows_literal 2 (by decide))) hl (.inr htop)
    (.inl ENNReal.ofNat_ne_top)
  have hseventyFour : stored .binary64 (2 * l) ≤ 74 := by
    refine (stored_mono ?_).trans_eq (shows_literal 74 (by decide)).stored_eq
    calc 2 * l ≤ 2 * 37 := by gcongr
      _ = 74 := by norm_num
  have hfinite := ne_top_of_le_ne_top ENNReal.ofNat_ne_top hseventyFour
  have hreal : (stored .binary64 (2 * l)).toReal ≤ 74 :=
    (ENNReal.toReal_mono ENNReal.ofNat_ne_top hseventyFour).trans_eq (ENNReal.toReal_ofNat 74)
  have hnine : √(stored .binary64 (2 * l)).toReal ≤ 9 :=
    Real.sqrt_le_iff.mpr ⟨by norm_num, by linarith⟩
  have hroot : ENNReal.ofReal √(stored .binary64 (2 * l)).toReal ≤ 9 :=
    (ENNReal.ofReal_le_ofReal hnine).trans_eq (ENNReal.ofReal_ofNat 9)
  refine ⟨_, shows_sqrt hproduct hfinite, ?_⟩
  exact (stored_mono hroot).trans_eq (shows_literal 9 (by decide)).stored_eq

theorem halfWidth_le (hlawful : platform.Lawful) (hs : Shows sigma .positive s)
    (hsmall : s ≤ 2 ^ 28) {a : Float}
    (ha : a ≤ 0 ∨ ∃ v, Shows a .positive v ∧ .ofReal (2 ^ (-53 : ℤ)) ≤ v) :
    halfWidth sigma a platform ≤ 9 * 2 ^ 28 := by
  have htop : s ≠ ⊤ := ne_top_of_le_ne_top (by finiteness) hsmall
  have hstored (k : ℕ) (hk : k < 10) {v : ℝ≥0∞} (hv : v ≤ k * 2 ^ 28) :
      stored .binary64 v ≤ ((k * 2 ^ 28 : ℕ) : ℝ≥0∞) := by
    rw [Nat.cast_mul, Nat.cast_pow, Nat.cast_ofNat, ← stored_natCast_mul (by omega) (by decide)]
    exact stored_mono hv
  unfold halfWidth
  refine max_le ?_ (by decide)
  split
  · have hshown := shows_mul (shows_literal 3 (by decide)) hs (.inl three_ne_zero)
      (.inl ENNReal.ofNat_ne_top)
    have hceiling : Number.ceiling (3 * sigma) ≤ 3 * 2 ^ 28 + 1 :=
      ceiling_le hshown (hstored 3 (by decide) (by gcongr; norm_num))
    omega
  · split
    · exact Nat.zero_le _
    · next hpos hless =>
      obtain ⟨v, hv, hlow⟩ := ha.resolve_left hpos
      have hone : a < 1 :=
        (lt_iff hv shows_one).mpr (not_le.mp fun hle => hless ((le_iff shows_one hv).mpr hle))
      obtain ⟨r, hr, hreach⟩ := shows_reach hlawful hv hlow hone
      have hfinite : r ≠ ⊤ := ne_top_of_le_ne_top ENNReal.ofNat_ne_top hreach
      have hshown := shows_mul hs hr (.inr hfinite) (.inl htop)
      refine floor_le hshown (hstored 9 (by decide) ?_)
      calc s * r ≤ 2 ^ 28 * 9 := mul_le_mul' hsmall hreach
        _ = 9 * 2 ^ 28 := mul_comm _ _
        _ = ((9 : ℕ) : ℝ≥0∞) * 2 ^ 28 := by rw [Nat.cast_ofNat]

theorem halfWidthFor_lt (shape : Shape) (sigma a : Float) (platform : Platform) :
    halfWidthFor shape sigma a platform < 2 ^ 32 := by
  have hwidth := shape.width.toNat_lt
  have hheight := shape.height.toNat_lt
  unfold halfWidthFor
  omega

end ImagePipeline.Blur

namespace ImagePipeline.BlurOptions

open Blur Floating
open scoped ENNReal

/-- An amplitude above zero is not too small, since it is what is left of 1. -/
theorem minAmplitude_cases {o : BlurOptions} (h : usable o.radius = true) :
    o.minAmplitude ≤ 0 ∨
      ∃ v, Shows o.minAmplitude .positive v ∧ .ofReal (2 ^ (-53 : ℤ)) ≤ v := by
  obtain ⟨hnumber, hpositive⟩ := usable_iff.mp h
  obtain ⟨r, -, hr⟩ := exists_of_not_nonpos hnumber hpositive
  have hfifty := shows_div hr (shows_literal 50 (by decide)) (OfNat.ofNat_ne_zero 50)
    (.inr ENNReal.ofNat_ne_top)
  generalize stored .binary64 (r / 50) = p at hfifty
  have hside : p ≠ 0 ∨ p ≠ ⊤ := by
    rcases eq_or_ne p 0 with rfl | hp
    · exact .inr ENNReal.zero_ne_top
    · exact .inl hp
  have hsquare := shows_mul hfifty hfifty hside hside.symm
  have hhalf := shows_div hsquare (shows_literal 2 (by decide)) two_ne_zero
    (.inr ENNReal.ofNat_ne_top)
  generalize stored .binary64 (stored .binary64 (p * p) / 2) = q at hhalf
  rcases lt_or_ge q 1 with hlt | hge
  · refine .inr ⟨_, shows_sub shows_one hhalf (.inl ENNReal.one_ne_top) hlt.le, ?_⟩
    have hleft : ENNReal.ofReal (2 ^ (-53 : ℤ)) ≤ 1 - q :=
      ENNReal.le_sub_of_add_le_left hlt.ne_top (hhalf.add_le_one hlt)
    exact (stored_two_zpow (by decide) (by decide)).symm.trans_le (stored_mono hleft)
  · exact .inl (le_of_negative
      (shows_sub_negative shows_one hhalf (.inl ENNReal.one_ne_top) hge) shows_zero)

/-- Whatever blur can be read, whatever the picture: the kernel is a kernel of numbers between 0 and
1 over a positive divisor, if only the deviation is above `Blur.vanishingDeviation`. The kernel of a
smaller deviation has no number in it. -/
theorem kernel_of_parse {op : Operation} {o : BlurOptions} (h : parse op = .ok o)
    {platform : Platform} (hlawful : platform.Lawful) (shape : Shape) :
    let half := halfWidthFor shape o.sigma o.minAmplitude platform
    let kernel := taps o.sigma half platform
    kernel.length = 2 * half + 1 ∧
      (vanishingDeviation < o.sigma →
        0 < divisor o.sigma ∧ ∀ tap ∈ kernel, Usable tap) ∧
      (o.sigma ≤ vanishingDeviation →
        divisor o.sigma ≤ 0 ∧ ∀ tap ∈ kernel, tap.isNaN = true) := by
  intro half kernel
  obtain ⟨hsigma, hradius⟩ := usable_of_parse h
  obtain ⟨hnumber, hpositive⟩ := usable_iff.mp hsigma
  obtain ⟨s, hpos, hs⟩ := exists_of_not_nonpos hnumber hpositive
  have hdivisor := shows_divisor hs hpos
  refine ⟨length_taps o.sigma half platform, ?_, ?_⟩
  · intro habove
    have hsome := mt divisorOf_eq_zero_iff.mp ((lt_iff shows_vanishing hs).mp habove).not_ge
    refine ⟨(lt_iff shows_zero hdivisor).mpr (pos_iff_ne_zero.mpr hsome), fun tap htap => ?_⟩
    refine usable_of_mem_taps hlawful hdivisor hsome (halfWidthFor_lt _ _ _ _) ?_ htap
    rcases le_total s (2 ^ 28) with hsmall | hlarge
    · have hhalf := halfWidth_le hlawful hs hsmall (minAmplitude_cases hradius)
      exact .inl ((min_le_left _ _).trans hhalf)
    · exact .inr (le_divisorOf hlarge)
  · intro hbelow
    have hzero := divisorOf_eq_zero_iff.mpr ((le_iff hs shows_vanishing).mp hbelow)
    rw [hzero] at hdivisor
    exact ⟨(le_iff hdivisor shows_zero).mpr le_rfl,
      fun _ htap => isNaN_of_mem_taps hlawful hdivisor htap⟩

/-- The values that the weights of the deviation 3 are made of. -/
def tabulated : Platform where
  exp x := if x.isNaN then x else if x < 0 then 0.9459594689067654 else 1
  log _ := -1

theorem lawful_tabulated : tabulated.Lawful := by
  constructor
  · intro x low high
    obtain ⟨v, hv⟩ := exists_of_nonneg low
    have hpositive : ¬ x < 0 := fun hlt => not_lt_zero ((lt_iff hv shows_zero).mp hlt)
    simp only [tabulated, hv.isNaN, Bool.false_eq_true, if_false, hpositive]
  · intro x h
    simp only [tabulated, isNaN_of_le h, Bool.false_eq_true, if_false]
    split
    · exact ⟨by decide, by decide +kernel⟩
    · exact ⟨by decide, by decide +kernel⟩
  · intro x h
    simp only [tabulated, h, if_true]
  · intro x _ _
    exact ⟨(by decide : (-1 : Float) ≤ 0), (by decide : -(-1 : Float) ≤ 37)⟩

theorem kernel_of_deviation_three :
    let o : BlurOptions := { sigma := 3, radius := 100 }
    parse ⟨"blur", ["s_3", "r_100"]⟩ = .ok o ∧ vanishingDeviation < o.sigma ∧
      0 < divisor o.sigma ∧
      ∀ tap ∈ taps o.sigma (halfWidthFor ⟨1, 1, false⟩ o.sigma o.minAmplitude tabulated) tabulated,
        Usable tap := by
  intro o
  have hparse : parse ⟨"blur", ["s_3", "r_100"]⟩ = .ok o := by rfl
  have habove : vanishingDeviation < o.sigma := by decide
  obtain ⟨-, husable, -⟩ := kernel_of_parse hparse lawful_tabulated ⟨1, 1, false⟩
  exact ⟨hparse, habove, husable habove⟩

set_option maxRecDepth 4000 in
/-- There are deviations that can be read and have a divisor that is zero. -/
theorem divisor_of_tiny_deviation :
    parse ⟨"blur", ["s_1e-200", "r_10"]⟩ = .ok { sigma := 1e-200, radius := 10 } ∧
      divisor 1e-200 = 0 :=
  ⟨by rfl, by decide +kernel⟩

end ImagePipeline.BlurOptions
