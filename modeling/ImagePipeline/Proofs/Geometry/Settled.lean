import ImagePipeline.Proofs.Geometry.UsablePlan

/-!
# Plans that settle an image

A limited resize leaves an image for which the same resize plans nothing
(`ResizeOptions.plan_settles`). The box of the second plan may be the first one turned over, which
is as large for the image that is there by then. Only a fill whose long edge is the shorter one
makes a tall image out of a wide one.
-/

namespace ImagePipeline

/-- A planner settles a shape: it plans one step at most, and nothing for what that step makes. -/
def Shape.SettledBy (source : Shape) (planner : Shape → List GeometryStep) : Prop :=
  planner source = [] ∨ ∃ step, planner source = [step] ∧ planner (step.reshape source) = []

namespace ResizeOptions

/-- The modes in which nothing is left to do after the first time; of a fill, the long edge and the
short edge have to be the right way round, if it has both. -/
def Settles (o : ResizeOptions) : Prop :=
  match o.mode with
  | .pad => False
  | .fill => (o.w ≠ 0 ∨ o.h ≠ 0) ∨ o.l = 0 ∨ o.s = 0 ∨ o.s ≤ o.l
  | .fixed | .mfit | .default => True

variable {o : ResizeOptions} {source : Shape} (hlimit : o.limit = true)
  (hsource : source.Pixelled)
include hlimit

theorem settledBy_of_unlessLimited {planner : Shape → List GeometryStep} {reason : Bool}
    {step : GeometryStep} (hplan : planner source = o.unlessLimited reason step)
    (hidle : planner (step.reshape source) = []) : source.SettledBy planner := by
  cases reason with
  | false =>
    left
    rw [hplan, unlessLimited_idle_iff hlimit]
  | true =>
    refine .inr ⟨step, ?_, hidle⟩
    rw [hplan, unlessLimited, Bool.true_or, if_pos rfl]

section

include hsource

theorem planDefault_settles : source.SettledBy o.planDefault := by
  let b := o.box source
  let filled := b.filledFrom source
  let scale := Scale.smaller (filled.wscale source) (filled.hscale source)
  let after := source.scaled scale scale
  obtain ⟨hscale, hwidth, hheight⟩ := b.scaled_filledFrom hsource
  have hagrees : b.Agrees (o.box after) after :=
    TargetBox.ofEdges_agrees (.inr (source.keepsOrder_scaled hscale))
  refine settledBy_of_unlessLimited hlimit planDefault_eq ?_
  rw [planDefault_eq, unlessLimited_idle_iff hlimit]
  exact hagrees.shrinksAny.trans (TargetBox.shrinksAny_eq_false_iff.mpr ⟨hwidth, hheight⟩)

theorem planMfit_settles (hedges : o.hasEdges = true) : source.SettledBy o.planMfit := by
  let b := o.completedBox source
  let scale := Scale.larger (b.wscale source) (b.hscale source)
  let after := source.scaled scale scale
  have hscale : 0 ≤ scale := (Scale.ratio_nonneg _ _).trans (Scale.le_larger_left _ _)
  have hagrees : b.Agrees (o.completedBox after) after :=
    TargetBox.ofEdges_agrees (.inr (source.keepsOrder_scaled hscale))
  have hattained := (TargetBox.scaled_larger (known_completedBox hedges source) hsource).imp
    UInt32.le_of_eq UInt32.le_of_eq
  refine settledBy_of_unlessLimited hlimit (planMfit_eq hedges) ?_
  rw [planMfit_eq hedges, unlessLimited_idle_iff hlimit]
  exact hagrees.shrinksBoth.trans (TargetBox.shrinksBoth_eq_false_iff.mpr hattained)

omit hsource in
/-- A stretch to the whole box makes exactly the box; turned over, it does not shrink itself. -/
theorem planFixed_settles_of_sides (hsides : (o.box source).w ≠ 0 ∧ (o.box source).h ≠ 0) :
    source.SettledBy o.planFixed := by
  let b := o.box source
  let after : Shape := { source with width := b.w, height := b.h }
  refine settledBy_of_unlessLimited hlimit (planFixed_of_sides hsides) ?_
  change o.planFixed after = []
  rcases TargetBox.ofEdges_or_swap o.w o.h o.l o.s source after with hsame | hswap
  · have hbox : o.box after = b := hsame
    rw [planFixed_of_sides (hbox ▸ hsides), unlessLimited_idle_iff hlimit, hbox]
    exact TargetBox.shrinksBoth_eq_false_iff.mpr (.inl (UInt32.le_refl b.w))
  · have hbox : o.box after = b.swap := hswap
    rw [planFixed_of_sides (hbox ▸ hsides.symm), unlessLimited_idle_iff hlimit, hbox]
    exact TargetBox.shrinksBoth_eq_false_iff.mpr (UInt32.le_total b.w b.h)

theorem planFixed_settles_of_side (hside : (o.box source).w = 0 ∨ (o.box source).h = 0) :
    source.SettledBy o.planFixed := by
  let b := o.box source
  let factors := coalesce (b.wscale source) (b.hscale source)
  let scale := Scale.smaller factors.1 factors.2
  let after := source.scaled scale scale
  obtain ⟨hscale, hwidth, hheight⟩ := TargetBox.scaled_coalesce hside hsource
  have hagrees : b.Agrees (o.box after) after :=
    TargetBox.ofEdges_agrees (.inr (source.keepsOrder_scaled hscale))
  have hside' : (o.box after).w = 0 ∨ (o.box after).h = 0 := by
    rcases hagrees with hsame | ⟨-, hswap⟩
    · rw [hsame]
      exact hside
    · rw [hswap]
      exact hside.symm
  refine settledBy_of_unlessLimited hlimit (planFixed_of_side hside) ?_
  change o.planFixed after = []
  rw [planFixed_of_side hside', unlessLimited_idle_iff hlimit]
  exact hagrees.shrinksAny.trans (TargetBox.shrinksAny_eq_false_iff.mpr ⟨hwidth, hheight⟩)

theorem planFixed_settles : source.SettledBy o.planFixed := by
  rcases o.sides_or_side source with hsides | hside
  · exact planFixed_settles_of_sides hlimit hsides
  · exact planFixed_settles_of_side hlimit hsource hside

end

omit hlimit in
/-- The edges of a fill, the right way round, leave a wide image wide and a tall one tall. -/
theorem keepsOrder_fill (hbox : ¬ (o.w ≠ 0 ∨ o.h ≠ 0)) (hedges : o.l = 0 ∨ o.s = 0 ∨ o.s ≤ o.l)
    (source : Shape) :
    source.KeepsOrder { source with
      width := (o.box source).coalesced.w, height := (o.box source).coalesced.h } := by
  have hedges' : o.s = 0 ∨ o.l = 0 ∨ o.s ≤ o.l := or_left_comm.mp hedges
  have hle : (⟨o.s, o.l⟩ : TargetBox).coalesced.w ≤ (⟨o.s, o.l⟩ : TargetBox).coalesced.h :=
    TargetBox.coalesced_w_le_h hedges'
  constructor
  · intro hwide
    have hsource : o.box source = TargetBox.swap ⟨o.s, o.l⟩ := by
      simp only [box, TargetBox.ofEdges, gt_iff_lt, UInt32.pos_iff_ne_zero, if_neg hbox,
        if_pos hwide]
      rfl
    rw [hsource, TargetBox.coalesced_swap]
    exact hle
  · intro htall
    have hsource : o.box source = ⟨o.s, o.l⟩ := by
      simp only [box, TargetBox.ofEdges, gt_iff_lt, UInt32.pos_iff_ne_zero, if_neg hbox,
        if_neg (UInt32.not_lt.mpr htall)]
    rw [hsource]
    exact hle

theorem planFill_settles (hedges : (o.w ≠ 0 ∨ o.h ≠ 0) ∨ o.l = 0 ∨ o.s = 0 ∨ o.s ≤ o.l) :
    source.SettledBy o.planFill := by
  let b := (o.box source).coalesced
  let after : Shape := { source with width := b.w, height := b.h }
  have hkeeps : (o.w ≠ 0 ∨ o.h ≠ 0) ∨ source.KeepsOrder after := by
    by_cases hbox : o.w ≠ 0 ∨ o.h ≠ 0
    · exact .inl hbox
    · exact .inr (keepsOrder_fill hbox (hedges.resolve_left hbox) source)
  have hagrees : b.Agrees (o.box after).coalesced after :=
    (TargetBox.ofEdges_agrees hkeeps).coalesced
  have hmade : b.shrinksAny after = false :=
    TargetBox.shrinksAny_eq_false_iff.mpr ⟨fun _ => UInt32.le_refl _, fun _ => UInt32.le_refl _⟩
  refine settledBy_of_unlessLimited hlimit planFill_eq ?_
  change o.planFill after = []
  rw [planFill_eq, unlessLimited_idle_iff hlimit]
  exact hagrees.shrinksAny.trans hmade

include hsource

theorem planMode_settles (hedges : o.hasEdges = true) (hsettles : o.Settles) :
    source.SettledBy o.planMode := by
  unfold planMode
  unfold Settles at hsettles
  revert hsettles
  cases o.mode with
  | pad => exact False.elim
  | fill => exact planFill_settles hlimit
  | fixed => exact fun _ => planFixed_settles hlimit hsource
  | mfit => exact fun _ => planMfit_settles hlimit hsource hedges
  | default => exact fun _ => planDefault_settles hlimit hsource

/-- A limited resize needs one step at most, and once it is made there is nothing left to do. -/
theorem plan_settles (hedges : o.hasEdges = true) (hsettles : o.Settles) :
    o.plan source = .ok [] ∨
      ∃ step, o.plan source = .ok [step] ∧ o.plan (step.reshape source) = .ok [] := by
  have hplan {shape : Shape} (h : shape.Pixelled) : o.plan shape = .ok (o.planMode shape) :=
    plan_of_edges hedges h
  rcases planMode_settles hlimit hsource hedges hsettles with hnone | ⟨step, hstep, hidle⟩
  · left
    rw [hplan hsource, hnone]
  · right
    have htarget : o.hasTarget = true := by
      rw [hasTarget, hedges, Bool.true_or]
    obtain ⟨plan, hmade, husable⟩ := plan_usable hsource htarget
    rw [hplan hsource, hstep] at hmade
    cases hmade
    have hpixelled := step.reshape_pixelled (husable step (List.mem_singleton_self step)) source
    refine ⟨step, ?_, ?_⟩
    · rw [hplan hsource, hstep]
    · rw [hplan hpixelled, hidle]

/-- A fill whose long edge is the shorter one turns the box over again and again. -/
example :
    let o : ResizeOptions := { l := 2, s := 4, mode := .fill }
    o.planMode ⟨10, 5, false⟩ = [.thumbnail 2 4 .centre .both] ∧
      o.planMode ⟨2, 4, false⟩ = [.thumbnail 4 2 .centre .both] := by
  decide

end ResizeOptions

end ImagePipeline
