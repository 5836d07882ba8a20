import ImagePipeline.Proofs.Geometry.Planners

/-!
# Width and height

No planner prefers one side to the other: options whose width and height are exchanged make for the
transposed image the transposed plan (`ResizeOptions.plan_transposed`), which leaves the transposed
shape. There is one exception. On a square image two different edges have to lie along some side,
and the long one lies along the height (`ResizeOptions.Tied`).
-/

namespace ImagePipeline

/-! ### Factors -/

namespace Scale

theorem smaller_comm (a b : Rat) : smaller a b = smaller b a := by
  have hmin (x y : Rat) : smaller x y = min x y := (min_def x y).symm
  rw [hmin, hmin, min_comm]

theorem larger_comm (a b : Rat) : larger a b = larger b a := by
  have hmax (x y : Rat) : larger x y = max x y := (max_def x y).symm
  rw [hmax, hmax, max_comm]

end Scale

/-! ### Boxes -/

namespace TargetBox

theorem shrinksAny_swap (b : TargetBox) (shape : Shape) :
    b.swap.shrinksAny shape.transpose = b.shrinksAny shape := Bool.or_comm _ _

theorem shrinksBoth_swap (b : TargetBox) (shape : Shape) :
    b.swap.shrinksBoth shape.transpose = b.shrinksBoth shape := Bool.and_comm _ _

theorem ofEdges_transpose {w h l s : UInt32} {source : Shape}
    (hfree : (w ≠ 0 ∨ h ≠ 0) ∨ source.width ≠ source.height ∨ l = s) :
    ofEdges h w l s source.transpose = (ofEdges w h l s source).swap := by
  unfold ofEdges
  simp only [gt_iff_lt, UInt32.pos_iff_ne_zero]
  by_cases hbox : w ≠ 0 ∨ h ≠ 0
  · rw [if_pos hbox, if_pos hbox.symm]
    rfl
  · rw [if_neg hbox, if_neg (mt Or.symm hbox)]
    by_cases hwide : source.height < source.width
    · have htall : ¬ source.transpose.height < source.transpose.width :=
        UInt32.not_lt.mpr (UInt32.le_of_lt hwide)
      rw [if_pos hwide, if_neg htall]
      rfl
    · rw [if_neg hwide]
      by_cases htall : source.transpose.height < source.transpose.width
      · rw [if_pos htall]
        rfl
      · -- the image is square, so the edges do not differ
        have hsquare : source.width = source.height :=
          UInt32.le_antisymm (UInt32.not_lt.mp hwide) (UInt32.not_lt.mp htall)
        have hsame := (hfree.resolve_left hbox).resolve_left (not_not_intro hsquare)
        rw [if_neg htall, hsame]
        rfl

end TargetBox

/-! ### Steps -/

namespace GeometryStep

def transposed : GeometryStep → GeometryStep
  | resize scale kernel => resize scale kernel
  | resizeAxes hscale vscale kernel => resizeAxes vscale hscale kernel
  | thumbnail width height interest sizing => thumbnail height width interest sizing
  | embedCentered width height background => embedCentered height width background

theorem reshape_transposed (step : GeometryStep) (shape : Shape) :
    step.transposed.reshape shape.transpose = (step.reshape shape).transpose := by
  cases step <;> rfl

end GeometryStep

theorem Shape.planned_transposed (shape : Shape) (plan : List GeometryStep) :
    shape.transpose.planned (plan.map GeometryStep.transposed)
      = (shape.planned plan).transpose := by
  induction plan generalizing shape with
  | nil => rfl
  | cons step rest ih =>
    change ((step.transposed.reshape shape.transpose).planned _) = _
    rw [step.reshape_transposed, ih]
    rfl

/-! ### Plans -/

namespace ResizeOptions

def transposed (o : ResizeOptions) : ResizeOptions := { o with w := o.h, h := o.w }

/-- The box is made of two different edges for a square image. -/
def Tied (o : ResizeOptions) (source : Shape) : Prop :=
  (o.w = 0 ∧ o.h = 0) ∧ source.width = source.height ∧ o.l ≠ o.s

section Free

variable {o : ResizeOptions} {source : Shape} (hfree : ¬ o.Tied source)
include hfree

theorem edges_of_not_tied : (o.w ≠ 0 ∨ o.h ≠ 0) ∨ source.width ≠ source.height ∨ o.l = o.s := by
  simpa only [Tied, not_and_or, not_not] using hfree

theorem box_transposed : o.transposed.box source.transpose = (o.box source).swap :=
  TargetBox.ofEdges_transpose (edges_of_not_tied hfree)

theorem completedBox_transposed :
    o.transposed.completedBox source.transpose = (o.completedBox source).swap := by
  have hcompleted (l s : UInt32) (hsame : l = s) : (coalesce l s).1 = (coalesce l s).2 := by
    rw [hsame, coalesce, ite_self, ite_self]
  exact TargetBox.ofEdges_transpose
    ((edges_of_not_tied hfree).imp_right (Or.imp_right (hcompleted o.l o.s)))

theorem planPad_transposed :
    o.transposed.planPad source.transpose = (o.planPad source).map .transposed := by
  let b := (o.box source).coalesced
  have hbox : (o.transposed.box source.transpose).coalesced = b.swap := by
    rw [box_transposed hfree, TargetBox.coalesced_swap]
  have hscale : Scale.smaller (b.swap.wscale source.transpose) (b.swap.hscale source.transpose)
      = Scale.smaller (b.wscale source) (b.hscale source) := Scale.smaller_comm _ _
  simp only [planPad, hbox, hscale]
  rfl

theorem planFill_transposed :
    o.transposed.planFill source.transpose = (o.planFill source).map .transposed := by
  rw [planFill_eq, planFill_eq, box_transposed hfree, TargetBox.coalesced_swap,
    TargetBox.shrinksAny_swap, map_unlessLimited]
  rfl

theorem planFixed_transposed :
    o.transposed.planFixed source.transpose = (o.planFixed source).map .transposed := by
  have hbox := box_transposed hfree
  rcases o.sides_or_side source with hsides | hside
  · rw [planFixed_of_sides hsides, planFixed_of_sides (hbox ▸ hsides.symm), hbox,
      TargetBox.shrinksBoth_swap, map_unlessLimited]
    rfl
  · have hscale : coalesce ((o.box source).swap.wscale source.transpose)
        ((o.box source).swap.hscale source.transpose)
        = (coalesce ((o.box source).wscale source) ((o.box source).hscale source)).swap :=
      coalesce_comm _ _
    rw [planFixed_of_side hside, planFixed_of_side (hbox ▸ hside.symm), hbox, hscale,
      TargetBox.shrinksAny_swap, map_unlessLimited, Prod.fst_swap, Prod.snd_swap,
      Scale.smaller_comm]
    rfl

theorem planMfit_transposed (hedges : o.hasEdges = true)
    (hedges' : o.transposed.hasEdges = true) :
    o.transposed.planMfit source.transpose = (o.planMfit source).map .transposed := by
  have hscale : Scale.larger ((o.completedBox source).swap.wscale source.transpose)
      ((o.completedBox source).swap.hscale source.transpose)
      = Scale.larger ((o.completedBox source).wscale source) ((o.completedBox source).hscale source)
      := Scale.larger_comm _ _
  rw [planMfit_eq hedges, planMfit_eq hedges', completedBox_transposed hfree, hscale,
    TargetBox.shrinksBoth_swap, map_unlessLimited]
  rfl

theorem planDefault_transposed :
    o.transposed.planDefault source.transpose = (o.planDefault source).map .transposed := by
  let filled := (o.box source).filledFrom source
  have hscale : Scale.smaller (filled.swap.wscale source.transpose)
      (filled.swap.hscale source.transpose)
      = Scale.smaller (filled.wscale source) (filled.hscale source) := Scale.smaller_comm _ _
  have hfilled : (o.box source).swap.filledFrom source.transpose = filled.swap := rfl
  rw [planDefault_eq, planDefault_eq, box_transposed hfree, hfilled, hscale,
    TargetBox.shrinksAny_swap, map_unlessLimited]
  rfl

theorem planMode_transposed (hedges : o.hasEdges = true) (hedges' : o.transposed.hasEdges = true) :
    o.transposed.planMode source.transpose = (o.planMode source).map .transposed := by
  have hmode : o.transposed.mode = o.mode := rfl
  unfold planMode
  rw [hmode]
  cases o.mode with
  | pad => exact planPad_transposed hfree
  | fill => exact planFill_transposed hfree
  | fixed => exact planFixed_transposed hfree
  | mfit => exact planMfit_transposed hfree hedges hedges'
  | default => exact planDefault_transposed hfree

/-- Unless two different edges make the box for a square image, the options with width and height
exchanged plan for the transposed image what the options plan for the image, step by step
transposed, or fail in the same way; and what such a plan leaves is transposed as well. -/
theorem plan_transposed :
    o.transposed.plan source.transpose = (o.plan source).map (List.map .transposed) ∧
      ∀ plan, o.plan source = .ok plan → ∃ plan', o.transposed.plan source.transpose = .ok plan' ∧
        source.transpose.planned plan' = (source.planned plan).transpose := by
  have htransposed : o.transposed.plan source.transpose
      = (o.plan source).map (List.map .transposed) := by
    have hempty : source.transpose.isEmpty = source.isEmpty := Bool.or_comm _ _
    have hedges : o.transposed.hasEdges = o.hasEdges := by
      have hsides : (decide (o.h > 0) || decide (o.w > 0))
          = (decide (o.w > 0) || decide (o.h > 0)) := Bool.or_comm _ _
      exact congrArg (fun sides => sides || decide (o.l > 0) || decide (o.s > 0)) hsides
    have hpercent : o.transposed.p = o.p := rfl
    unfold plan
    rw [hempty, hedges, hpercent]
    cases source.isEmpty with
    | true => rfl
    | false =>
      cases hgiven : o.hasEdges with
      | true =>
        have hplan := planMode_transposed hfree hgiven (hedges.trans hgiven)
        simp only [Bool.false_eq_true, if_false, if_true, hplan]
        rfl
      | false =>
        simp only [Bool.false_eq_true, if_false]
        split <;> rfl
  refine ⟨htransposed, ?_⟩
  intro plan hplan
  rw [hplan] at htransposed
  exact ⟨_, htransposed, source.planned_transposed plan⟩

end Free

/-- The long edge of a wide image lies along its width, of the transposed image along its height;
padding to it leaves two pixels above the one and left of the other. -/
theorem plan_transposed_of_wide :
    let o : ResizeOptions := { l := 8, s := 6, mode := .pad }
    let scale : Rat := 2
    o.plan ⟨4, 1, true⟩
        = .ok [.resizeAxes scale scale .linear, .embedCentered 8 6 .extended] ∧
      o.plan ⟨1, 4, true⟩
        = .ok [.resizeAxes scale scale .linear, .embedCentered 6 8 .extended] := by
  intro o scale
  have hfree : ¬ o.Tied ⟨4, 1, true⟩ := by
    rintro ⟨-, hsquare, -⟩
    exact absurd hsquare (by decide)
  have hplan : o.plan ⟨4, 1, true⟩
      = .ok [.resizeAxes scale scale .linear, .embedCentered 8 6 .extended] := by
    decide +kernel
  refine ⟨hplan, ?_⟩
  have htransposed := (plan_transposed hfree).1
  rw [hplan] at htransposed
  exact htransposed

/-- On a square image the long edge lies along the height both times. -/
example :
    let o : ResizeOptions := { l := 8, s := 6, mode := .pad }
    let square : Shape := ⟨3, 3, false⟩
    o.transposed.plan square.transpose = o.plan square ∧
      (o.plan square).map (List.map .transposed) ≠ o.plan square := by
  decide +kernel

end ResizeOptions

end ImagePipeline
