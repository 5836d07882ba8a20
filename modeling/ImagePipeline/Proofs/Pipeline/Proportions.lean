import ImagePipeline.Proofs.Geometry.Fitting
import ImagePipeline.Proofs.Geometry.Planners
import ImagePipeline.Proofs.Pipeline.ResizeTwice

/-!
# Proportions

Three modes keep the proportions of the image as far as rounding allows. The default mode leaves it
inside the box and the `mfit` mode around it, both of them exactly as long as the box on one side
that counts; the `fixed` mode, when one side is known, makes that side and lets the other follow
(`ResizeOptions.plan_proportions`).
-/

namespace ImagePipeline

/-! ### Plans -/

namespace ResizeOptions

/-- What the modes that keep the proportions promise of the shape they make. -/
structure Promise (o : ResizeOptions) (source result : Shape) : Prop where
  /-- A side that is not asked for is bounded by the source. -/
  inside : o.mode = .default → ∃ box, o.Aims source box ∧ (box.filledFrom source).Encloses result
  around : o.mode = .mfit → ∃ box, o.edged.Aims source box ∧ box.CoveredBy result
  along : o.mode = .fixed → ∃ box, o.Aims source box ∧
    (box.w = 0 ∨ box.h = 0 → box.Leads source result)

variable {o : ResizeOptions} {source : Shape}

section

variable (hsource : source.Pixelled)
include hsource

theorem encloses_planDefault (h : o.planDefault source ≠ []) :
    ((o.box source).filledFrom source).Encloses (source.planned (o.planDefault source)) := by
  rw [planDefault_eq] at h ⊢
  rw [planned_unlessLimited h]
  have hfilled := TargetBox.filledFrom_ne hsource (o.box source)
  exact TargetBox.encloses_smaller hsource hfilled.1 hfilled.2

variable (hedges : o.hasEdges = true)
include hedges

theorem coveredBy_planMfit (h : o.planMfit source ≠ []) :
    (o.completedBox source).CoveredBy (source.planned (o.planMfit source)) := by
  rw [planMfit_eq hedges] at h ⊢
  rw [planned_unlessLimited h]
  exact TargetBox.coveredBy_larger hsource (known_completedBox hedges source)

theorem leads_planFixed (hunknown : (o.box source).w = 0 ∨ (o.box source).h = 0)
    (h : o.planFixed source ≠ []) :
    (o.box source).Leads source (source.planned (o.planFixed source)) := by
  rw [planFixed_of_side hunknown] at h ⊢
  rw [planned_unlessLimited h]
  exact TargetBox.leads_coalesced hsource (known_box hedges source)

theorem planMode_promise (h : o.planMode source ≠ []) :
    o.Promise source (source.planned (o.planMode source)) := by
  constructor
  · intro hmode
    simp only [planMode, hmode] at h ⊢
    exact ⟨o.box source, o.aims_box source, encloses_planDefault hsource h⟩
  · intro hmode
    simp only [planMode, hmode] at h ⊢
    refine ⟨o.edged.box source, o.edged.aims_box source, ?_⟩
    rw [← completedBox_eq]
    exact coveredBy_planMfit hsource hedges h
  · intro hmode
    simp only [planMode, hmode] at h ⊢
    exact ⟨o.box source, o.aims_box source, fun hunknown =>
      leads_planFixed hsource hedges hunknown h⟩

end

end ResizeOptions

/-! ### Runs -/

namespace Task

variable {B : Backend Rat} (hsketch : B.FollowsSketch) (interruption : Interruption Rat)
include hsketch

theorem shape_of_followPlan {plan : List GeometryStep} (husable : ∀ step ∈ plan, step.Usable)
    (hexact : ∀ shape, ∀ step ∈ plan, (changeOf shape step : Edit Rat).Exact)
    {before after : Workbench B} (hpixelled : (B.shape before.handle).Pixelled)
    (hrun : (followPlan interruption plan).run.run before = (.ok (), after)) :
    B.shape after.handle = (B.shape before.handle).planned plan := by
  induction plan generalizing before with
  | nil =>
    cases hrun
    rfl
  | cons step rest ih =>
    rw [run_followPlan_cons] at hrun
    obtain ⟨_, middle, hperform, hrest⟩ := run_bind_inv hrun
    have hshape := hsketch.shape_edit (hexact _ step List.mem_cons_self) hpixelled
      (edit_of_perform interruption hperform)
    rw [after_changeOf] at hshape
    have hmiddle : (B.shape middle.handle).Pixelled := by
      rw [hshape]
      exact step.reshape_pixelled (husable step List.mem_cons_self) _
    rw [ih (fun step' hstep => husable step' (List.mem_cons_of_mem _ hstep))
      (fun shape step' hstep => hexact shape step' (List.mem_cons_of_mem _ hstep)) hmiddle hrest,
      hshape]
    rfl

/-- A resize that has succeeded has left the shape that was planned. -/
theorem shape_of_resize {o : ResizeOptions} {plan : List GeometryStep} {before after : Workbench B}
    (htarget : o.hasTarget = true) (hpixelled : (B.shape before.handle).Pixelled)
    (hplan : o.plan (B.shape before.handle) = .ok plan)
    (hrun : (resize interruption o).run.run before = (.ok (), after)) :
    B.shape after.handle = (B.shape before.handle).planned plan := by
  obtain ⟨_, hmade, husable⟩ := ResizeOptions.plan_usable hpixelled htarget
  rw [hplan] at hmade
  cases hmade
  rw [run_resize, hplan] at hrun
  exact shape_of_followPlan hsketch interruption husable (changeOf_exact hplan) hpixelled hrun

end Task

namespace ResizeOptions

/-- For an image with pixels there is a plan, which only the limit can suppress, and otherwise the
shape it leaves keeps the promise of its mode. That is the shape which every run that succeeds has
left, however the backend makes its canvases. -/
theorem plan_proportions {o : ResizeOptions} {source : Shape} (hedges : o.hasEdges = true)
    (hsource : source.Pixelled) :
    ∃ plan, o.plan source = .ok plan ∧
      (o.limit = false → plan ≠ []) ∧
      (plan ≠ [] → o.Promise source (source.planned plan)) ∧
      ∀ {B : Backend Rat} (interruption : Interruption Rat) {before after : Workbench B},
        B.FollowsSketch → B.shape before.handle = source →
          (Task.resize interruption o).run.run before = (.ok (), after) →
            B.shape after.handle = source.planned plan := by
  have hplan : o.plan source = .ok (o.planMode source) := plan_of_edges hedges hsource
  have htarget : o.hasTarget = true := by
    rw [hasTarget, hedges, Bool.true_or]
  refine ⟨_, hplan, fun hlimit => planMode_ne_nil hlimit source,
    planMode_promise hsource hedges, ?_⟩
  rintro B interruption before after hsketch rfl hrun
  exact Task.shape_of_resize hsketch interruption htarget hsource hplan hrun

/-- Two by five pixels are made three wide; of a height of seven and a half they get eight. -/
theorem plan_proportions_of_tall :
    let o : ResizeOptions := { w := 3, mode := .fixed, limit := false }
    o.Promise ⟨2, 5, false⟩ ⟨3, 8, false⟩ := by
  intro o
  have hsource : (⟨2, 5, false⟩ : Shape).Pixelled := ⟨by decide, by decide⟩
  obtain ⟨plan, hplan, hsome, hpromise, -⟩ := plan_proportions (o := o) rfl hsource
  have hmade : o.plan ⟨2, 5, false⟩ = .ok [.resizeAxes (3 / 2) (3 / 2) .linear] := by
    decide +kernel
  rw [hmade] at hplan
  cases hplan
  have hplanned : (⟨2, 5, false⟩ : Shape).planned [.resizeAxes (3 / 2) (3 / 2) .linear]
      = ⟨3, 8, false⟩ := by
    decide +kernel
  exact hplanned ▸ hpromise (hsome rfl)

end ResizeOptions

end ImagePipeline
