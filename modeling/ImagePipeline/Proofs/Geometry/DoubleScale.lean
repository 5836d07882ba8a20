import ImagePipeline.Proofs.Geometry.LawfulScale
import ImagePipeline.Proofs.Number.Double

/-!
# Doubles are lawful scale factors

A side that is scaled by a rounded ratio to another side, or by a larger one, comes out no shorter
than that side: the product falls short of it by less than a quarter, and rounding to nearest makes
up for that.
-/

namespace ImagePipeline

open Double

namespace Double

/-! ### Whole numbers as doubles -/

theorem reads_toFloat64 {n : Nat} (hpos : 0 < n) (hn : n < 2 ^ 53) :
    Reads n.toUInt64.toFloat n := by
  have htoNat : n.toUInt64.toNat = n := by
    rw [UInt64.toNat_ofNat']
    omega
  change Reads (.ofModel (.pack (.ofNat .binary64 n.toUInt64.toNat))) n
  rw [htoNat]
  exact reads_ofNat hpos hn

theorem reads_toFloat32 {n : UInt32} (h : n ≠ 0) : Reads n.toFloat n.toNat := by
  have hlt := n.toNat_lt
  exact reads_ofNat (Number.pos_of_ne_zero h) (by omega)

theorem reads_half : Reads 0.5 (1 / 2) := by
  refine ⟨2 ^ 52, -53, ⟨by decide, by decide⟩, by decide, rfl, ?_⟩
  norm_num [zpow_neg]

theorem reads_sub_zero {x : Float} {v : Rat} (hx : Reads x v) (hv : v < 1) :
    Reads (x - (0 : UInt64).toFloat) v := by
  obtain ⟨m, e, hm, he, hunpack, rfl⟩ := hx
  have hexponent : e < -52 := by
    refine hm.exponent_le ?_
    norm_num
    exact hv
  refine ⟨m, e, hm, he, ?_, rfl⟩
  change (Float.Model.pack (.sub .binary64 x.toModel.unpack
    (Float.toModel (0 : UInt64).toFloat).unpack)).unpack = _
  have hzero : (Float.toModel (0 : UInt64).toFloat).unpack = .zero .positive := rfl
  rw [hunpack, hzero]
  exact unpack_pack .positive hm he (by omega)

/-! ### Rounding to nearest -/

theorem nearest_le_ceiling (x : Float) : Number.nearest x ≤ Number.ceiling x := by
  unfold Number.nearest Number.ceiling
  by_cases hhalf : x - x.toUInt64.toFloat ≥ 0.5
  · have hlt : x > x.toUInt64.toFloat := lt_of_half_le_sub hhalf
    simp only [hhalf, hlt, if_true]
    exact Nat.le_refl _
  · simp only [hhalf, if_false]
    split
    · unfold Number.maxUInt64
      have hbound := x.toUInt64.toNat_lt
      omega
    · exact Nat.le_refl _

/-- A double that is hardly less than a whole number is rounded to it, or up. -/
theorem le_nearest {x : Float} {v : Rat} (hx : Reads x v) {t : Nat} (ht : t < 2 ^ 32)
    (h : (t : Rat) - 1 / 4 ≤ v) : t ≤ Number.nearest x := by
  obtain ⟨n, hlow, hhigh, hwhole⟩ := toNat_toUInt64 hx
  unfold Number.nearest
  rcases Nat.lt_or_ge n t with hshort | hlong
  · have hnext : t = n + 1 := by
      have hcast : (t : Rat) < ((n + 2 : Nat) : Rat) := by
        push_cast
        linarith
      have hlt : t < n + 2 := by exact_mod_cast hcast
      omega
    have hsame : x.toUInt64 = n.toUInt64 := by
      apply UInt64.toNat_inj.mp
      rw [hwhole, UInt64.toNat_ofNat']
      omega
    have hhalf : (0.5 : Float) ≤ x - x.toUInt64.toFloat := by
      rw [hsame]
      rw [hnext] at h
      push_cast at h
      rcases Nat.eq_zero_or_pos n with rfl | hpos
      · have hless : v < 1 := by
          push_cast at hhigh
          linarith
        push_cast at h
        exact le_of_reads reads_half (reads_sub_zero hx hless) (by linarith)
      · obtain ⟨w, hnear, hreads⟩ := reads_sub hx (reads_toFloat64 hpos (by omega))
          (by norm_num; linarith) (by norm_num; linarith)
        have hlow' := hnear.low
        norm_num at hlow'
        exact le_of_reads reads_half hreads (by linarith)
    have hge : x - x.toUInt64.toFloat ≥ 0.5 := hhalf
    simp only [hge, if_true]
    rw [hwhole, hnext]
    unfold Number.maxUInt64
    omega
  · dsimp only
    rw [hwhole]
    unfold Number.maxUInt64
    split
    · omega
    · omega

/-! ### Ratios -/

theorem num_den_le {a b : Nat} (ha : 0 < a) (hb : 0 < b) :
    (0 < ((a : Rat) / (b : Rat)).num.toNat ∧ ((a : Rat) / (b : Rat)).num.toNat ≤ a) ∧
      ((a : Rat) / (b : Rat)).den ≤ b := by
  have hnum := Rat.num_dvd (a : Int) (b := (b : Int)) (by exact_mod_cast hb.ne')
  have hden := Rat.den_dvd (a : Int) (b : Int)
  rw [Rat.divInt_eq_div, Int.cast_natCast, Int.cast_natCast] at hnum hden
  have hpos : 0 < ((a : Rat) / (b : Rat)).num := by
    rw [Rat.num_pos]
    positivity
  have hnumLe := Int.le_of_dvd (by omega) hnum
  have hdenLe := Int.le_of_dvd (by omega) hden
  omega

/-- A ratio of sides is read as something near to it. -/
theorem reads_toDouble {a b : Nat} (ha : 0 < a) (hb : 0 < b) (ha' : a < 2 ^ 32) (hb' : b < 2 ^ 32) :
    ∃ w, Near w ((a : Rat) / b) ∧ Reads (Scale.toDouble ((a : Rat) / b)) w := by
  obtain ⟨⟨hnumPos, hnumLe⟩, hdenLe⟩ := num_den_le ha hb
  have hvalue : ((((a : Rat) / b).num.toNat : Nat) : Rat) / ((((a : Rat) / b).den : Nat) : Rat)
      = (a : Rat) / b := by
    have hcast : ((((a : Rat) / b).num.toNat : Nat) : Rat) = (((a : Rat) / b).num : Rat) := by
      rw [← Int.cast_natCast, Int.toNat_of_nonneg (by omega)]
    rw [hcast, Rat.num_div_den]
  have hbounds : (2 : Rat) ^ (-100 : Int) ≤ (a : Rat) / b ∧ (a : Rat) / b ≤ 2 ^ 100 := by
    have ha₁ : (1 : Rat) ≤ a := by exact_mod_cast ha
    have hb₁ : (1 : Rat) ≤ b := by exact_mod_cast hb
    have ha₂ : (a : Rat) < 4294967296 := by exact_mod_cast ha'
    have hb₂ : (b : Rat) < 4294967296 := by exact_mod_cast hb'
    constructor
    · rw [le_div_iff₀ (by linarith)]
      norm_num
      linarith
    · rw [div_le_iff₀ (by linarith)]
      norm_num
      linarith
  have hdiv := reads_div (reads_toFloat64 hnumPos (by omega))
    (reads_toFloat64 ((a : Rat) / b).den_pos (by omega)) (by rw [hvalue]; exact hbounds.1)
    (by rw [hvalue]; exact hbounds.2)
  rw [hvalue] at hdiv
  exact hdiv

end Double

/-! ### The laws -/

theorem Scale.side_float (x : Float) (n : UInt32) :
    Scale.side x n = if (n.toFloat * x).isFinite then
      Number.clampSide (Number.nearest (n.toFloat * x)) else 1 := rfl

theorem Scale.cover_float (x : Float) (n : UInt32) :
    Scale.cover x n = max 1 (Number.ceiling (n.toFloat * x)) := rfl

/-- The product of a side and a ratio that is read as a double is hardly less than the exact one. -/
theorem Scale.reads_product {source a b : UInt32} (hsource : source ≠ 0) (ha : 0 < a.toNat)
    (hb : b ≠ 0) (hone : 1 ≤ Scale.product (Scale.ratio a b) source) :
    ∃ p, Reads (source.toFloat * Scale.toDouble (Scale.ratio a b)) p ∧
      Scale.product (Scale.ratio a b) source * (2 ^ 51 - 1) ≤ p * 2 ^ 51 := by
  have hb' := Number.pos_of_ne_zero hb
  obtain ⟨q, hnear, hreads⟩ := reads_toDouble ha hb' a.toNat_lt b.toNat_lt
  have hmax : Scale.product (Scale.ratio a b) source ≤ 2 ^ 64 := by
    have hside : (source.toNat : Rat) ≤ 2 ^ 32 := by exact_mod_cast source.toNat_lt.le
    have hbox : (a.toNat : Rat) ≤ 2 ^ 32 := by exact_mod_cast a.toNat_lt.le
    have hden : (1 : Rat) ≤ b.toNat := by exact_mod_cast hb'
    have hratio : Scale.ratio a b ≤ 2 ^ 32 := (div_le_self (Nat.cast_nonneg _) hden).trans hbox
    have hmul := mul_le_mul hside hratio (div_nonneg (Nat.cast_nonneg _) (Nat.cast_nonneg _))
      (by norm_num)
    norm_num at hmul ⊢
    exact hmul
  have hlow := mul_le_mul_of_nonneg_left hnear.low (Nat.cast_nonneg (α := Rat) source.toNat)
  have hhigh := mul_le_mul_of_nonneg_left hnear.high (Nat.cast_nonneg (α := Rat) source.toNat)
  rw [← mul_assoc, ← mul_assoc] at hlow hhigh
  change Scale.product (Scale.ratio a b) source * _ ≤ _ at hlow
  change _ ≤ Scale.product (Scale.ratio a b) source * _ at hhigh
  norm_num at hlow hhigh hmax
  obtain ⟨p, hnear', hreads'⟩ := reads_mul (reads_toFloat32 hsource) hreads
    (by norm_num; linarith) (by norm_num; linarith)
  have hproduct := hnear'.low
  norm_num at hproduct ⊢
  exact ⟨p, hreads', by linarith⟩

theorem Scale.le_side_float {target source a b : UInt32} (hsource : source ≠ 0) (hb : b ≠ 0)
    (hle : Scale.ratio target source ≤ Scale.ratio a b) :
    target.toNat ≤ (Scale.side (Scale.ofRatio (Scale.ratio a b) : Float) source).toNat := by
  rcases Nat.eq_zero_or_pos target.toNat with hzero | hsome
  · rw [hzero]
    exact Nat.zero_le _
  · have hone : (1 : Rat) ≤ target.toNat := by exact_mod_cast hsome
    have hmax : (target.toNat : Rat) < 4294967296 := by exact_mod_cast target.toNat_lt
    have hexact := Scale.le_product_of_ratio_le hsource hle
    have ha : 0 < a.toNat := by
      refine Nat.pos_of_ne_zero fun hzero => ?_
      have hnone : Scale.product (Scale.ratio a b) source = 0 := by
        simp only [Scale.product, Scale.ratio, hzero, Nat.cast_zero, zero_div, mul_zero]
      linarith
    obtain ⟨p, hreads, hproduct⟩ := Scale.reads_product hsource ha hb (hone.trans hexact)
    norm_num at hproduct
    change _ ≤ (Scale.side (Scale.toDouble (Scale.ratio a b)) source).toNat
    rw [Scale.side_float, hreads.isFinite, if_pos rfl]
    exact Number.le_toNat_clampSide (le_nearest hreads target.toNat_lt (by linarith))

instance : LawfulScale Float where
  isPositive_ofRatio := by
    intro a b ha hb ha' hb'
    obtain ⟨w, -, hreads⟩ := reads_toDouble ha hb ha' hb'
    change (!(Scale.toDouble ((a : Rat) / b)).isNaN && !decide (Scale.toDouble ((a : Rat) / b) ≤ 0))
      = true
    rw [hreads.isNaN, decide_eq_false hreads.not_le_zero]
    rfl
  one_le_side := by
    intro x n
    rw [Scale.side_float]
    split
    · exact Number.one_le_clampSide _
    · exact Nat.le_refl 1
  side_le_cover := by
    intro x n
    rw [Scale.side_float, Scale.cover_float]
    split
    · have hceiling := nearest_le_ceiling (n.toFloat * x)
      rw [Number.toNat_clampSide]
      omega
    · exact Nat.le_max_left 1 _
  le_side_ofRatio := fun _ _ h => Scale.le_side_float h h (le_refl _)

instance : CoveringScale Float where
  le_side := Scale.le_side_float

end ImagePipeline
