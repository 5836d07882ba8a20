import ImagePipeline.Proofs.Geometry.Boxes

/-!
# Sides that a factor makes

With exact factors a side is the rounded product, so the factor that brings a side to a target makes
exactly the target, and a larger factor makes no shorter side. `Shape.scaled` is the shape that two
factors make, `GeometryStep.reshape` the one that a step makes.

The edges of a box are laid along the sides of the image that is there, so the box of a second plan
may be the first one turned over: a wide image may become square by rounding, and a square image
counts as tall. On a square image the two boxes are equally large (`TargetBox.Agrees`).
-/

namespace ImagePipeline

/-! ### Exact sides -/

namespace Scale

theorem toNat_side (r : Rat) (n : UInt32) :
    (side r n).toNat = max 1 (min (roundRat (product r n)) Number.maxUInt32) :=
  Number.toNat_clampSide _

theorem side_le_of_product_le {r r' : Rat} {m n : UInt32} (h : product r m ≤ product r' n) :
    side r m ≤ side r' n := by
  have hround := roundRat_mono h
  rw [UInt32.le_iff_toNat_le, toNat_side, toNat_side]
  omega

theorem side_mono {r r' : Rat} (h : r ≤ r') (n : UInt32) : side r n ≤ side r' n :=
  side_le_of_product_le (mul_le_mul_of_nonneg_left h (Nat.cast_nonneg _))

theorem side_le_side {r : Rat} (hr : 0 ≤ r) {m n : UInt32} (h : m ≤ n) : side r m ≤ side r n := by
  have hcast : (m.toNat : Rat) ≤ n.toNat := by
    exact_mod_cast UInt32.le_iff_toNat_le.mp h
  exact side_le_of_product_le (mul_le_mul_of_nonneg_right hcast hr)

theorem side_ratio {target source : UInt32} (ht : target ≠ 0) (hs : source ≠ 0) :
    side (ratio target source) source = target := by
  have hpos := Number.pos_of_ne_zero ht
  have hmax := Number.toNat_le_maxUInt32 target
  rw [← UInt32.toNat_inj, toNat_side, product_ratio hs, roundRat_natCast]
  omega

theorem side_le_target {r : Rat} {target source : UInt32} (ht : target ≠ 0) (hs : source ≠ 0)
    (h : r ≤ ratio target source) : side r source ≤ target := by
  have hside := side_mono h source
  rwa [side_ratio ht hs] at hside

theorem le_side {r : Rat} {target source : UInt32} (hs : source ≠ 0)
    (h : ratio target source ≤ r) : target ≤ side r source := by
  by_cases ht : target = 0
  · rw [ht]
    exact UInt32.zero_le
  · have hside := side_mono h source
    rwa [side_ratio ht hs] at hside

theorem ratio_nonneg (target source : UInt32) : 0 ≤ ratio target source :=
  div_nonneg (Nat.cast_nonneg _) (Nat.cast_nonneg _)

theorem smaller_le_left (a b : Rat) : smaller a b ≤ a := by
  unfold smaller
  split
  · exact le_refl a
  · rename_i h
    exact (lt_of_not_ge h).le

theorem smaller_le_right (a b : Rat) : smaller a b ≤ b := by
  unfold smaller
  split
  · assumption
  · exact le_refl b

theorem smaller_nonneg {a b : Rat} (ha : 0 ≤ a) (hb : 0 ≤ b) : 0 ≤ smaller a b := by
  unfold smaller
  split
  · exact ha
  · exact hb

theorem smaller_self (a : Rat) : smaller a a = a := ite_self a

end Scale

/-! ### Shapes -/

namespace Shape

def scaled (shape : Shape) (hscale vscale : Rat) : Shape :=
  { shape with width := Scale.side hscale shape.width, height := Scale.side vscale shape.height }

/-- A wide shape has not become tall, and a tall or square one has not become wide. -/
structure KeepsOrder (before after : Shape) : Prop where
  wide : before.height < before.width → after.height ≤ after.width
  tall : before.width ≤ before.height → after.width ≤ after.height

theorem keepsOrder_scaled (shape : Shape) {r : Rat} (hr : 0 ≤ r) :
    shape.KeepsOrder (shape.scaled r r) :=
  ⟨fun h => Scale.side_le_side hr (UInt32.le_of_lt h), fun h => Scale.side_le_side hr h⟩

end Shape

/-! ### Boxes -/

section

variable {α : Type} [DecidableEq α] [OfNat α 0]

theorem coalesce_zero_left (b : α) : coalesce 0 b = (b, b) := if_pos rfl

theorem coalesce_zero_right (a : α) : coalesce a 0 = (a, a) := by
  unfold coalesce
  split
  · rename_i ha
    rw [ha]
  · exact if_pos rfl

theorem coalesce_comm (a b : α) : coalesce b a = (coalesce a b).swap := by
  unfold coalesce
  by_cases ha : a = 0
  · by_cases hb : b = 0
    · rw [if_pos hb, if_pos ha, ha, hb, Prod.swap_prod_mk]
    · rw [if_neg hb, if_pos ha, if_pos ha, Prod.swap_prod_mk]
  · by_cases hb : b = 0
    · rw [if_pos hb, if_neg ha, if_pos hb, Prod.swap_prod_mk]
    · rw [if_neg hb, if_neg ha, if_neg ha, if_neg hb, Prod.swap_prod_mk]

end

namespace TargetBox

def swap (b : TargetBox) : TargetBox := ⟨b.h, b.w⟩

/-- Two boxes are equally large for an image: they are the same, or the image is square and the one
is the other turned over. -/
def Agrees (b b' : TargetBox) (shape : Shape) : Prop :=
  b' = b ∨ shape.width = shape.height ∧ b' = b.swap

theorem ofEdges_agrees {w h l s : UInt32} {before after : Shape}
    (hkeeps : (w ≠ 0 ∨ h ≠ 0) ∨ before.KeepsOrder after) :
    (ofEdges w h l s before).Agrees (ofEdges w h l s after) after := by
  unfold ofEdges
  simp only [gt_iff_lt, UInt32.pos_iff_ne_zero]
  by_cases hbox : w ≠ 0 ∨ h ≠ 0
  · rw [if_pos hbox, if_pos hbox]
    exact .inl rfl
  · rw [if_neg hbox, if_neg hbox]
    have horder := hkeeps.resolve_left hbox
    by_cases hwide : before.height < before.width
    · rw [if_pos hwide]
      split
      · exact .inl rfl
      · rename_i htall
        exact .inr ⟨UInt32.le_antisymm (UInt32.not_lt.mp htall) (horder.wide hwide), rfl⟩
    · rw [if_neg hwide]
      have htall := horder.tall (UInt32.not_lt.mp hwide)
      rw [if_neg (UInt32.not_lt.mpr htall)]
      exact .inl rfl

theorem ofEdges_or_swap (w h l s : UInt32) (before after : Shape) :
    ofEdges w h l s after = ofEdges w h l s before ∨
      ofEdges w h l s after = (ofEdges w h l s before).swap := by
  unfold ofEdges
  split
  · exact .inl rfl
  · split <;> split
    · exact .inl rfl
    · exact .inr rfl
    · exact .inr rfl
    · exact .inl rfl

theorem coalesced_of_unknown {b : TargetBox} (h : b.w = 0 ∨ b.h = 0) :
    b.coalesced.w = b.coalesced.h := by
  obtain ⟨w, h⟩ := b
  simp only [coalesced]
  rcases h with rfl | rfl
  · rw [coalesce_zero_left]
  · rw [coalesce_zero_right]

theorem coalesced_of_known {b : TargetBox} (hw : b.w ≠ 0) (hh : b.h ≠ 0) : b.coalesced = b := by
  simp only [coalesced, coalesce, hw, hh, if_false]

theorem coalesced_swap (b : TargetBox) : b.swap.coalesced = b.coalesced.swap := by
  simp only [coalesced, swap, coalesce_comm b.w b.h, Prod.fst_swap, Prod.snd_swap]

theorem coalesced_w_le_h {b : TargetBox} (h : b.w = 0 ∨ b.h = 0 ∨ b.w ≤ b.h) :
    b.coalesced.w ≤ b.coalesced.h := by
  by_cases hw : b.w = 0
  · exact UInt32.le_of_eq (coalesced_of_unknown (.inl hw))
  · by_cases hh : b.h = 0
    · exact UInt32.le_of_eq (coalesced_of_unknown (.inr hh))
    · rw [coalesced_of_known hw hh]
      exact (h.resolve_left hw).resolve_left hh

theorem shrinksAny_iff {b : TargetBox} {shape : Shape} : b.shrinksAny shape = true ↔
    (b.w ≠ 0 ∧ b.w < shape.width) ∨ (b.h ≠ 0 ∧ b.h < shape.height) := by
  simp only [shrinksAny, gt_iff_lt, UInt32.pos_iff_ne_zero, Bool.or_eq_true, Bool.and_eq_true,
    decide_eq_true_eq]

theorem shrinksAny_eq_false_iff {b : TargetBox} {shape : Shape} : b.shrinksAny shape = false ↔
    (b.w ≠ 0 → shape.width ≤ b.w) ∧ (b.h ≠ 0 → shape.height ≤ b.h) := by
  rw [← Bool.not_eq_true, shrinksAny_iff, not_or, not_and, not_and, UInt32.not_lt, UInt32.not_lt]

theorem shrinksBoth_iff {b : TargetBox} {shape : Shape} :
    b.shrinksBoth shape = true ↔ b.w < shape.width ∧ b.h < shape.height := by
  simp only [shrinksBoth, Bool.and_eq_true, decide_eq_true_eq]

theorem shrinksBoth_eq_false_iff {b : TargetBox} {shape : Shape} :
    b.shrinksBoth shape = false ↔ shape.width ≤ b.w ∨ shape.height ≤ b.h := by
  simp only [shrinksBoth, Bool.and_eq_false_iff, decide_eq_false_iff_not, UInt32.not_lt]

/-- The larger of the two factors of a box makes one of its known sides. -/
theorem scaled_larger {b : TargetBox} (hknown : b.Known) {source : Shape}
    (hsource : source.Pixelled) :
    let scale := Scale.larger (b.wscale source) (b.hscale source)
    (source.scaled scale scale).width = b.w ∨ (source.scaled scale scale).height = b.h := by
  unfold Scale.larger
  split
  · rename_i hle
    by_cases hh : b.h = 0
    · have hw := hknown.resolve_right (not_not_intro hh)
      rw [hscale, hh, Scale.ratio_zero] at hle
      exact absurd hle (not_le_of_gt (Scale.isRatio_ratio hw hsource.width_ne).pos)
    · exact .inr (Scale.side_ratio hh hsource.height_ne)
  · rename_i hlt
    by_cases hw : b.w = 0
    · rw [wscale, hw, Scale.ratio_zero] at hlt
      exact absurd (Scale.ratio_nonneg _ _) hlt
    · exact .inl (Scale.side_ratio hw hsource.width_ne)

/-- The smaller factor of a box that the source has completed makes no known side longer. -/
theorem scaled_filledFrom (b : TargetBox) {source : Shape} (hsource : source.Pixelled) :
    let filled := b.filledFrom source
    let scale := Scale.smaller (filled.wscale source) (filled.hscale source)
    0 ≤ scale ∧ (b.w ≠ 0 → (source.scaled scale scale).width ≤ b.w) ∧
      (b.h ≠ 0 → (source.scaled scale scale).height ≤ b.h) := by
  refine ⟨Scale.smaller_nonneg (Scale.ratio_nonneg _ _) (Scale.ratio_nonneg _ _), ?_, ?_⟩
  · intro hw
    have hfilled : (b.filledFrom source).w = b.w := if_neg hw
    refine Scale.side_le_target hw hsource.width_ne ?_
    rw [← hfilled]
    exact Scale.smaller_le_left _ _
  · intro hh
    have hfilled : (b.filledFrom source).h = b.h := if_neg hh
    refine Scale.side_le_target hh hsource.height_ne ?_
    rw [← hfilled]
    exact Scale.smaller_le_right _ _

/-- With one side known at most, there is only the factor of the other. -/
theorem factor_down {b : TargetBox} (hw : b.w = 0) (source : Shape) :
    let factors := coalesce (b.wscale source) (b.hscale source)
    Scale.smaller factors.1 factors.2 = b.hscale source := by
  dsimp only
  rw [wscale, hw, Scale.ratio_zero, coalesce_zero_left, Scale.smaller_self]

theorem factor_across {b : TargetBox} (hh : b.h = 0) (source : Shape) :
    let factors := coalesce (b.wscale source) (b.hscale source)
    Scale.smaller factors.1 factors.2 = b.wscale source := by
  dsimp only
  rw [hscale, hh, Scale.ratio_zero, coalesce_zero_right, Scale.smaller_self]

/-- With one side known at most, the one factor there is makes that side. -/
theorem scaled_coalesce {b : TargetBox} (hunknown : b.w = 0 ∨ b.h = 0) {source : Shape}
    (hsource : source.Pixelled) :
    let factors := coalesce (b.wscale source) (b.hscale source)
    let scale := Scale.smaller factors.1 factors.2
    0 ≤ scale ∧ (b.w ≠ 0 → (source.scaled scale scale).width ≤ b.w) ∧
      (b.h ≠ 0 → (source.scaled scale scale).height ≤ b.h) := by
  intro factors scale
  rcases hunknown with hw | hh
  · rw [show scale = _ from factor_down hw source]
    refine ⟨Scale.ratio_nonneg _ _, fun h => absurd hw h, ?_⟩
    intro hh
    exact UInt32.le_of_eq (Scale.side_ratio hh hsource.height_ne)
  · rw [show scale = _ from factor_across hh source]
    refine ⟨Scale.ratio_nonneg _ _, ?_, fun h => absurd hh h⟩
    intro hw
    exact UInt32.le_of_eq (Scale.side_ratio hw hsource.width_ne)

namespace Agrees

variable {b b' : TargetBox} {shape : Shape}

theorem coalesced (h : b.Agrees b' shape) : b.coalesced.Agrees b'.coalesced shape := by
  rcases h with rfl | ⟨hsquare, rfl⟩
  · exact .inl rfl
  · exact .inr ⟨hsquare, b.coalesced_swap⟩

theorem shrinksAny (h : b.Agrees b' shape) : b'.shrinksAny shape = b.shrinksAny shape := by
  rcases h with rfl | ⟨hsquare, rfl⟩
  · rfl
  · simp only [TargetBox.shrinksAny, swap, hsquare]
    exact Bool.or_comm _ _

theorem shrinksBoth (h : b.Agrees b' shape) : b'.shrinksBoth shape = b.shrinksBoth shape := by
  rcases h with rfl | ⟨hsquare, rfl⟩
  · rfl
  · simp only [TargetBox.shrinksBoth, swap, hsquare]
    exact Bool.and_comm _ _

end Agrees

end TargetBox

/-! ### Steps -/

/-- A step that no backend has a reason to refuse, unless it is too large. -/
def GeometryStep.Usable : GeometryStep → Prop
  | .resize scale _ => IsRatio scale
  | .resizeAxes hscale vscale _ => IsRatio hscale ∧ IsRatio vscale
  | .thumbnail width height _ _ => width ≠ 0 ∧ height ≠ 0
  | .embedCentered width height _ => width ≠ 0 ∧ height ≠ 0

def GeometryStep.reshape (step : GeometryStep) (shape : Shape) : Shape :=
  match step with
  | .resize scale _ => shape.scaled scale scale
  | .resizeAxes hscale vscale _ => shape.scaled hscale vscale
  | .thumbnail width height _ _ => { shape with width := width, height := height }
  | .embedCentered width height _ => { shape with width := width, height := height }

theorem GeometryStep.reshape_pixelled {step : GeometryStep} (h : step.Usable) (shape : Shape) :
    (step.reshape shape).Pixelled := by
  have hscaled (hscale vscale : Rat) : (shape.scaled hscale vscale).Pixelled :=
    Shape.pixelled_of_one_le ⟨LawfulScale.one_le_side hscale _, LawfulScale.one_le_side vscale _⟩
  cases step with
  | resize scale kernel => exact hscaled scale scale
  | resizeAxes hscale vscale kernel => exact hscaled hscale vscale
  | thumbnail width height interest sizing => exact ⟨h.1, h.2⟩
  | embedCentered width height background => exact ⟨h.1, h.2⟩

end ImagePipeline
