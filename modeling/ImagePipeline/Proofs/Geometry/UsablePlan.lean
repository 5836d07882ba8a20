import ImagePipeline.Proofs.Geometry.Planners

/-!
# Plans can be carried out

No plan asks for a factor of zero or for a canvas without pixels, whatever the mode is and whichever
of the sides are known (`ResizeOptions.plan_usable`).
-/

namespace ImagePipeline.ResizeOptions

variable {o : ResizeOptions} {source : Shape} (hedges : o.hasEdges = true)
  (hsource : source.Pixelled)
include hedges hsource

theorem planPad_usable : ∀ step ∈ o.planPad source, step.Usable := by
  have hbox := TargetBox.coalesced_ne (known_box hedges source)
  have hscale := Scale.isRatio_smaller (Scale.isRatio_ratio hbox.1 hsource.width_ne)
    (Scale.isRatio_ratio hbox.2 hsource.height_ne)
  exact List.forall_mem_cons.mpr ⟨⟨hscale, hscale⟩, List.forall_mem_singleton.mpr hbox⟩

omit hsource in
theorem planFill_usable : ∀ step ∈ o.planFill source, step.Usable := by
  rw [planFill_eq]
  exact forall_mem_unlessLimited (TargetBox.coalesced_ne (known_box hedges source))

theorem planFixed_usable : ∀ step ∈ o.planFixed source, step.Usable := by
  rcases o.sides_or_side source with hsides | hside
  · rw [planFixed_of_sides hsides]
    exact forall_mem_unlessLimited hsides
  · have hratios := coalesce_isRatio (TargetBox.isRatio?_wscale hsource (o.box source))
      (TargetBox.isRatio?_hscale hsource (o.box source))
      ((known_box hedges source).isRatio hsource)
    have hscale := Scale.isRatio_smaller hratios.1 hratios.2
    rw [planFixed_of_side hside]
    exact forall_mem_unlessLimited ⟨hscale, hscale⟩

theorem planMfit_usable : ∀ step ∈ o.planMfit source, step.Usable := by
  have hscale := Scale.isRatio_larger (TargetBox.isRatio?_wscale hsource (o.completedBox source))
    (TargetBox.isRatio?_hscale hsource (o.completedBox source))
    ((known_completedBox hedges source).isRatio hsource)
  rw [planMfit_eq hedges]
  exact forall_mem_unlessLimited hscale

omit hedges in
theorem planDefault_usable : ∀ step ∈ o.planDefault source, step.Usable := by
  have hfilled := TargetBox.filledFrom_ne hsource (o.box source)
  have hscale := Scale.isRatio_smaller (Scale.isRatio_ratio hfilled.1 hsource.width_ne)
    (Scale.isRatio_ratio hfilled.2 hsource.height_ne)
  rw [planDefault_eq]
  exact forall_mem_unlessLimited hscale

theorem planMode_usable : ∀ step ∈ o.planMode source, step.Usable := by
  unfold planMode
  cases o.mode with
  | pad => exact planPad_usable hedges hsource
  | fill => exact planFill_usable hedges
  | fixed => exact planFixed_usable hedges hsource
  | mfit => exact planMfit_usable hedges hsource
  | default => exact planDefault_usable hsource

omit hedges in
/-- With some size given there is a plan for every image with pixels, and it can be carried out. -/
theorem plan_usable (htarget : o.hasTarget = true) :
    ∃ plan, o.plan source = .ok plan ∧ ∀ step ∈ plan, step.Usable := by
  by_cases hedges : o.hasEdges = true
  · exact ⟨_, plan_of_edges hedges hsource, planMode_usable hedges hsource⟩
  · unfold plan
    rw [hsource.isEmpty_eq]
    simp only [Bool.false_eq_true, if_false]
    rw [if_neg hedges]
    have hp : o.p > 0 := by
      simpa only [hasTarget, hedges, Bool.false_or, decide_eq_true_eq] using htarget
    rw [if_pos hp]
    exact ⟨_, rfl, List.forall_mem_singleton.mpr
      (Scale.isRatio_percent (UInt32.pos_iff_ne_zero.mp hp))⟩

end ImagePipeline.ResizeOptions
