import ImagePipeline.Proofs.Geometry.UsablePlan

/-!
# What the limit does to a plan

With the limit off every mode plans something. With the limit on each mode has its own condition
for planning nothing, on the sides of the box that are known; what is planned all the same makes
the image smaller (`ResizeOptions.plan_limited`).
-/

namespace ImagePipeline

/-! ### Factors below one -/

namespace Scale

theorem ratio_lt_one {target source : UInt32} (h : target < source) : ratio target source < 1 := by
  have hlt : target.toNat < source.toNat := UInt32.lt_iff_toNat_lt.mp h
  have hpos : (0 : Rat) < source.toNat := by exact_mod_cast Nat.zero_lt_of_lt hlt
  unfold ratio
  rw [div_lt_iff₀ hpos, one_mul]
  exact_mod_cast hlt

theorem larger_lt {a b c : Rat} (ha : a < c) (hb : b < c) : larger a b < c := by
  unfold larger
  split
  · exact hb
  · exact ha

theorem side_le {r : Rat} (hr : r ≤ 1) {n : UInt32} (hn : n ≠ 0) : side r n ≤ n := by
  refine side_le_target hn hn ?_
  rwa [ratio_self hn]

end Scale

namespace TargetBox

variable {b : TargetBox} {source : Shape}

theorem smaller_coalesce_lt_one (hside : b.w = 0 ∨ b.h = 0) (h : b.shrinksAny source = true) :
    let factors := coalesce (b.wscale source) (b.hscale source)
    Scale.smaller factors.1 factors.2 < 1 := by
  rcases shrinksAny_iff.mp h with ⟨hw, hlt⟩ | ⟨hh, hlt⟩
  · have hacross := factor_across (hside.resolve_left hw) source
    exact hacross.trans_lt (Scale.ratio_lt_one hlt)
  · have hdown := factor_down (hside.resolve_right hh) source
    exact hdown.trans_lt (Scale.ratio_lt_one hlt)

theorem smaller_filledFrom_lt_one (h : b.shrinksAny source = true) :
    let filled := b.filledFrom source
    Scale.smaller (filled.wscale source) (filled.hscale source) < 1 := by
  rcases shrinksAny_iff.mp h with ⟨hw, hlt⟩ | ⟨hh, hlt⟩
  · refine (Scale.smaller_le_left _ _).trans_lt ?_
    rw [wscale, filledFrom, if_neg hw]
    exact Scale.ratio_lt_one hlt
  · refine (Scale.smaller_le_right _ _).trans_lt ?_
    rw [hscale, filledFrom, if_neg hh]
    exact Scale.ratio_lt_one hlt

end TargetBox

/-! ### Steps that make no side longer -/

/-- No side of the shape is longer than that of the source. -/
structure Shape.Within (shape source : Shape) : Prop where
  width_le : shape.width ≤ source.width
  height_le : shape.height ≤ source.height

namespace GeometryStep

/-- A factor below one, or a size below the source on both sides. -/
def Reduces (source : Shape) : GeometryStep → Prop
  | resize scale _ => scale < 1
  | resizeAxes hscale vscale _ => hscale < 1 ∧ vscale < 1
  | thumbnail width height _ _ => width < source.width ∧ height < source.height
  | embedCentered .. => False

theorem Reduces.within {source shape : Shape} {step : GeometryStep} (h : step.Reduces source)
    (hpixelled : shape.Pixelled) (hshape : shape.Within source) :
    (step.reshape shape).Within source := by
  have hscaled {hscale vscale : Rat} (hh : hscale < 1) (hv : vscale < 1) :
      (shape.scaled hscale vscale).Within source :=
    ⟨UInt32.le_trans (Scale.side_le hh.le hpixelled.width_ne) hshape.width_le,
      UInt32.le_trans (Scale.side_le hv.le hpixelled.height_ne) hshape.height_le⟩
  cases step with
  | resize scale kernel => exact hscaled h h
  | resizeAxes hscale vscale kernel => exact hscaled h.1 h.2
  | thumbnail width height interest sizing => exact ⟨UInt32.le_of_lt h.1, UInt32.le_of_lt h.2⟩
  | embedCentered width height background => exact h.elim

end GeometryStep

theorem Shape.within_planned {source shape : Shape} {plan : List GeometryStep}
    (husable : ∀ step ∈ plan, step.Usable) (hreduces : ∀ step ∈ plan, step.Reduces source)
    (hpixelled : shape.Pixelled) (hshape : shape.Within source) :
    (shape.planned plan).Within source := by
  induction plan generalizing shape with
  | nil => exact hshape
  | cons step rest ih =>
    obtain ⟨hstep, hrest⟩ := List.forall_mem_cons.mp husable
    obtain ⟨hfirst, hothers⟩ := List.forall_mem_cons.mp hreduces
    exact ih hrest hothers (step.reshape_pixelled hstep shape) (hfirst.within hpixelled hshape)

/-! ### Plans under the limit -/

namespace ResizeOptions

variable {o : ResizeOptions} {source : Shape} (hlimit : o.limit = true)
include hlimit

section

variable (hedges : o.hasEdges = true)
include hedges

theorem planFill_eq_nil_iff : o.planFill source = [] ↔
    source.width ≤ (o.box source).whole.w ∧ source.height ≤ (o.box source).whole.h := by
  have hwhole := TargetBox.whole_ne (known_box hedges source)
  rw [planFill_eq, unlessLimited_idle_iff hlimit, TargetBox.coalesced_eq_whole,
    TargetBox.shrinksAny_eq_false_iff]
  simp only [hwhole.1, hwhole.2, ne_eq, not_false_eq_true, true_implies]

theorem planFixed_eq_nil_iff : o.planFixed source = [] ↔
    (o.box source).w ≠ 0 ∧ source.width ≤ (o.box source).w ∨
      (o.box source).h ≠ 0 ∧ source.height ≤ (o.box source).h := by
  have hknown : (o.box source).w ≠ 0 ∨ (o.box source).h ≠ 0 := known_box hedges source
  rcases o.sides_or_side source with hsides | hside
  · rw [planFixed_of_sides hsides, unlessLimited_idle_iff hlimit,
      TargetBox.shrinksBoth_eq_false_iff]
    simp only [hsides.1, hsides.2, ne_eq, not_false_eq_true, true_and]
  · -- of the one side that is known, any and every are the same
    rw [planFixed_of_side hside, unlessLimited_idle_iff hlimit, TargetBox.shrinksAny_eq_false_iff]
    rcases hside with hw | hh
    · have hh := hknown.resolve_left (not_not_intro hw)
      simp only [hw, hh, ne_eq, not_true_eq_false, not_false_eq_true, false_implies, true_implies,
        true_and, false_and, false_or]
    · have hw := hknown.resolve_right (not_not_intro hh)
      simp only [hw, hh, ne_eq, not_true_eq_false, not_false_eq_true, false_implies, true_implies,
        and_true, true_and, false_and, or_false]

theorem planMfit_eq_nil_iff : o.planMfit source = [] ↔
    source.width ≤ (o.completedBox source).w ∨ source.height ≤ (o.completedBox source).h := by
  rw [planMfit_eq hedges, unlessLimited_idle_iff hlimit, TargetBox.shrinksBoth_eq_false_iff]

omit hedges in
theorem planDefault_eq_nil_iff : o.planDefault source = [] ↔
    ((o.box source).w ≠ 0 → source.width ≤ (o.box source).w) ∧
      ((o.box source).h ≠ 0 → source.height ≤ (o.box source).h) := by
  rw [planDefault_eq, unlessLimited_idle_iff hlimit, TargetBox.shrinksAny_eq_false_iff]

theorem planFill_shrinks (h : o.planFill source ≠ []) :
    let result := source.planned (o.planFill source)
    result.width < source.width ∨ result.height < source.height := by
  have hshrinks := mt (planFill_eq_nil_iff hlimit hedges).mpr h
  rw [not_and_or, UInt32.not_le, UInt32.not_le, ← TargetBox.coalesced_eq_whole] at hshrinks
  rw [planFill_eq] at h ⊢
  rw [planned_unlessLimited h]
  exact hshrinks

omit hedges in
theorem planFixed_reduces : ∀ step ∈ o.planFixed source, step.Reduces source := by
  intro step hstep
  rcases o.sides_or_side source with hsides | hside
  · rw [planFixed_of_sides hsides] at hstep
    obtain ⟨rfl, hshrinks⟩ := mem_unlessLimited hstep
    exact TargetBox.shrinksBoth_iff.mp (hshrinks hlimit)
  · rw [planFixed_of_side hside] at hstep
    obtain ⟨rfl, hshrinks⟩ := mem_unlessLimited hstep
    have hfactor := TargetBox.smaller_coalesce_lt_one hside (hshrinks hlimit)
    exact ⟨hfactor, hfactor⟩

theorem planMfit_reduces : ∀ step ∈ o.planMfit source, step.Reduces source := by
  intro step hstep
  rw [planMfit_eq hedges] at hstep
  obtain ⟨rfl, hshrinks⟩ := mem_unlessLimited hstep
  obtain ⟨hw, hh⟩ := TargetBox.shrinksBoth_iff.mp (hshrinks hlimit)
  exact Scale.larger_lt (Scale.ratio_lt_one hw) (Scale.ratio_lt_one hh)

omit hedges in
theorem planDefault_reduces : ∀ step ∈ o.planDefault source, step.Reduces source := by
  intro step hstep
  rw [planDefault_eq] at hstep
  obtain ⟨rfl, hshrinks⟩ := mem_unlessLimited hstep
  exact TargetBox.smaller_filledFrom_lt_one (hshrinks hlimit)

end

omit hlimit

/-- When the limit leaves a plan empty, mode by mode, and what becomes of the image otherwise. -/
structure Limited (o : ResizeOptions) (source : Shape) (plan : List GeometryStep) : Prop where
  pad : o.mode = .pad → plan ≠ []
  fill : o.mode = .fill → ∃ box, o.Aims source box ∧
    (plan = [] ↔ source.width ≤ box.whole.w ∧ source.height ≤ box.whole.h)
  fixed : o.mode = .fixed → ∃ box, o.Aims source box ∧
    (plan = [] ↔ box.w ≠ 0 ∧ source.width ≤ box.w ∨ box.h ≠ 0 ∧ source.height ≤ box.h)
  mfit : o.mode = .mfit → ∃ box, o.edged.Aims source box ∧
    (plan = [] ↔ source.width ≤ box.w ∨ source.height ≤ box.h)
  default : o.mode = .default → ∃ box, o.Aims source box ∧
    (plan = [] ↔ (box.w ≠ 0 → source.width ≤ box.w) ∧ (box.h ≠ 0 → source.height ≤ box.h))
  shrinks : o.mode = .fill → plan ≠ [] →
    (source.planned plan).width < source.width ∨ (source.planned plan).height < source.height
  reduces : o.mode = .fixed ∨ o.mode = .mfit ∨ o.mode = .default →
    (∀ step ∈ plan, step.Reduces source) ∧ (source.planned plan).Within source

theorem planMode_reduces (hlimit : o.limit = true) (hedges : o.hasEdges = true)
    (hmode : o.mode = .fixed ∨ o.mode = .mfit ∨ o.mode = .default) :
    ∀ step ∈ o.planMode source, step.Reduces source := by
  rcases hmode with hfixed | hmfit | hdefault
  · simp only [planMode, hfixed]
    exact planFixed_reduces hlimit
  · simp only [planMode, hmfit]
    exact planMfit_reduces hlimit hedges
  · simp only [planMode, hdefault]
    exact planDefault_reduces hlimit

theorem planMode_limited (hlimit : o.limit = true) (hedges : o.hasEdges = true)
    (hsource : source.Pixelled) : o.Limited source (o.planMode source) := by
  constructor
  · intro hmode
    simp only [planMode, hmode]
    exact List.cons_ne_nil _ _
  · intro hmode
    simp only [planMode, hmode]
    exact ⟨o.box source, o.aims_box source, planFill_eq_nil_iff hlimit hedges⟩
  · intro hmode
    simp only [planMode, hmode]
    exact ⟨o.box source, o.aims_box source, planFixed_eq_nil_iff hlimit hedges⟩
  · intro hmode
    simp only [planMode, hmode]
    refine ⟨o.edged.box source, o.edged.aims_box source, ?_⟩
    rw [← completedBox_eq]
    exact planMfit_eq_nil_iff hlimit hedges
  · intro hmode
    simp only [planMode, hmode]
    exact ⟨o.box source, o.aims_box source, planDefault_eq_nil_iff hlimit⟩
  · intro hmode hplanned
    simp only [planMode, hmode] at hplanned ⊢
    exact planFill_shrinks hlimit hedges hplanned
  · intro hmode
    have hreduces : ∀ step ∈ o.planMode source, step.Reduces source :=
      planMode_reduces hlimit hedges hmode
    have husable := planMode_usable hedges hsource
    exact ⟨hreduces, Shape.within_planned husable hreduces hsource
      ⟨UInt32.le_refl _, UInt32.le_refl _⟩⟩

/-- For an image with pixels there is a plan, which is not empty with the limit off. With the limit
on its mode decides from the sides of the box whether it is empty; if it is not, the image gets no
longer on any side, or shorter on one when it is filled in. -/
theorem plan_limited (hedges : o.hasEdges = true) (hsource : source.Pixelled) :
    ∃ plan, o.plan source = .ok plan ∧ (o.limit = false → plan ≠ []) ∧
      (o.limit = true → o.Limited source plan) :=
  ⟨_, plan_of_edges hedges hsource, fun hlimit => planMode_ne_nil hlimit source,
    fun hlimit => planMode_limited hlimit hedges hsource⟩

/-- The long edge alone makes a square box of four around ten by six pixels; that is below the
source on both sides. -/
theorem plan_limited_of_wide :
    let o : ResizeOptions := { l := 4, mode := .mfit }
    let source : Shape := ⟨10, 6, false⟩
    let plan : List GeometryStep := [.resize (2 / 3) .linear]
    o.plan source = .ok plan ∧ (source.planned plan).Within source := by
  intro o source plan
  have hsource : source.Pixelled := ⟨by decide, by decide⟩
  have hmade : o.plan source = .ok plan := by decide +kernel
  obtain ⟨_, hplan, -, hlimited⟩ := plan_limited (o := o) rfl hsource
  rw [hmade] at hplan
  cases hplan
  exact ⟨hmade, ((hlimited rfl).reduces (.inr (.inl rfl))).2⟩

end ResizeOptions

end ImagePipeline
