import ImagePipeline.Pipeline.Rehearsal
import ImagePipeline.Proofs.Geometry.Settled
import ImagePipeline.Proofs.Pipeline.Change
import ImagePipeline.Proofs.Pipeline.Lifecycle

/-!
# Resizing twice

A limited resize that has been carried out leaves nothing to do for the same resize: the second
one makes no call (`Task.resize_twice`). All that is asked of the backend is that its canvases have
the sides that a sketch of them has (`Backend.FollowsSketch`), as those of the backend that works on
pixels have (`pixels_followsSketch`).
-/

namespace ImagePipeline

/-! ### Backends that keep to a sketch -/

/-- The sides after the change do not depend on what a backend makes of it. Those of a thumbnail
that is fitted into its box do. -/
def Edit.Exact {σ : Type} : Edit σ → Prop
  | .thumbnail _ _ interest sizing => sizing = .force ∨ interest = .centre
  | _ => True

/-- The shape after a change is the one that a sketch has after it. -/
structure Backend.FollowsSketch {σ : Type} [Scale σ] (B : Backend σ) : Prop where
  shape_edit {change : Edit σ} {handle changed : B.Handle} : change.Exact →
    (B.shape handle).Pixelled → B.edit change handle = .ok changed →
      B.shape changed = (Sketch.after ⟨B.shape handle, B.format handle⟩ change).shape

theorem Edit.reshape_eq_after {σ : Type} [Scale σ] [CoveringScale σ] [FiniteScale σ]
    {change : Edit σ} (hexact : change.Exact) {shape : Shape} (hpixelled : shape.Pixelled)
    (format : ImageType) : change.reshape shape = (Sketch.after ⟨shape, format⟩ change).shape := by
  cases change with
  | thumbnail width height interest sizing =>
    cases sizing with
    | force => rfl
    | both =>
      cases interest with
      | centre => exact Thumbnail.reshape_centre hpixelled width height
      | all => rcases hexact with h | h <;> cases h
  | resize | resizeAxes =>
    simp only [Edit.reshape, Sketch.after, Sketch.withSides, FiniteScale.saturating_eq]
  | embed | addAlpha | watermark | blur => rfl

theorem pixels_followsSketch {σ : Type} [Scale σ] [CoveringScale σ] [FiniteScale σ]
    (limits : Limits) (load : ByteArray → Except BackendError Photo) :
    (pixels limits load : Backend σ).FollowsSketch := by
  constructor
  intro change handle changed hexact hpixelled h
  exact (Photo.edit_reshape h).trans (Edit.reshape_eq_after hexact hpixelled handle.format)

/-! ### Resizes that are carried out -/

namespace Task

section

variable {σ : Type} [Scale σ] {B : Backend σ} (interruption : Interruption σ)

theorem run_resize_idle {o : ResizeOptions} {bench : Workbench B}
    (h : o.plan (B.shape bench.handle) = .ok []) :
    (resize interruption o).run.run bench = (.ok (), bench) := by
  rw [run_resize, h]
  rfl

theorem edit_of_followPlan {step : GeometryStep} {before after : Workbench B}
    (h : (followPlan interruption [step]).run.run before = (.ok (), after)) :
    B.edit (changeOf (B.shape before.handle) step) before.handle = .ok after.handle := by
  rw [run_followPlan_cons] at h
  obtain ⟨_, middle, hperform, hdone⟩ := run_bind_inv h
  cases hdone
  exact edit_of_perform interruption hperform

end

/-! ### The second resize -/

theorem changeOf_exact {o : ResizeOptions} {source : Shape} {plan : List GeometryStep}
    (h : o.plan source = .ok plan) (shape : Shape) :
    ∀ step ∈ plan, (changeOf shape step : Edit Rat).Exact := by
  have hmode (hedges : o.hasEdges = true) :
      ∀ step ∈ o.planMode source, (changeOf shape step : Edit Rat).Exact := by
    unfold ResizeOptions.planMode
    cases o.mode with
    | pad => exact List.forall_mem_cons.mpr ⟨trivial, List.forall_mem_singleton.mpr trivial⟩
    | fill =>
      rw [ResizeOptions.planFill_eq]
      exact ResizeOptions.forall_mem_unlessLimited (.inr rfl)
    | fixed =>
      rcases o.sides_or_side source with hsides | hside
      · rw [ResizeOptions.planFixed_of_sides hsides]
        exact ResizeOptions.forall_mem_unlessLimited (.inl rfl)
      · rw [ResizeOptions.planFixed_of_side hside]
        exact ResizeOptions.forall_mem_unlessLimited trivial
    | mfit =>
      rw [ResizeOptions.planMfit_eq hedges]
      exact ResizeOptions.forall_mem_unlessLimited trivial
    | default =>
      rw [ResizeOptions.planDefault_eq]
      exact ResizeOptions.forall_mem_unlessLimited trivial
  unfold ResizeOptions.plan at h
  split at h
  · cases h
  · split at h
    · rename_i hedges
      cases h
      exact hmode hedges
    · split at h
      · cases h
        exact List.forall_mem_singleton.mpr trivial
      · cases h

theorem after_changeOf (shape : Shape) (format : ImageType) (step : GeometryStep) :
    (Sketch.after ⟨shape, format⟩ (changeOf shape step : Edit Rat)).shape = step.reshape shape := by
  cases step <;> rfl

/-- Once a limited resize has succeeded, the same resize plans nothing and makes no call, whatever
the source was and whether or not somebody cancels. -/
theorem resize_twice {B : Backend Rat} (hsketch : B.FollowsSketch) {o : ResizeOptions}
    (hedges : o.hasEdges = true) (hlimit : o.limit = true) (hsettles : o.Settles)
    (first second : Interruption Rat) {before after : Workbench B}
    (hpixelled : (B.shape before.handle).Pixelled)
    (hrun : (resize first o).run.run before = (.ok (), after)) :
    o.plan (B.shape after.handle) = .ok [] ∧
      (resize second o).run.run after = (.ok (), after) := by
  have hidle : o.plan (B.shape after.handle) = .ok [] := by
    rcases ResizeOptions.plan_settles hlimit hpixelled hedges hsettles with
      hnone | ⟨step, hstep, hidle⟩
    · cases (run_resize_idle first hnone).symm.trans hrun
      exact hnone
    · rw [run_resize, hstep] at hrun
      have hedit := edit_of_followPlan first hrun
      have hexact := changeOf_exact hstep (B.shape before.handle) step
        (List.mem_singleton_self step)
      have hshape := hsketch.shape_edit hexact hpixelled hedit
      rw [after_changeOf] at hshape
      rw [hshape]
      exact hidle
  exact ⟨hidle, run_resize_idle second hidle⟩

def greyPhoto : Photo :=
  ⟨⟨.whole .grey .eight, Raster.uniform 5 4 (Vector.replicate 1 (128 : UInt8))⟩, .png⟩

/-- The long edge lies along the width of five by four pixels, which become one; along its height
at the second time. -/
theorem resize_twice_of_grey :
    let B : Backend Rat := pixels {}
    let o : ResizeOptions := { l := 2, s := 1 }
    ∃ after : Workbench B, (resize .never o).run.run ⟨greyPhoto, [], false⟩ = (.ok (), after) ∧
      o.plan (B.shape after.handle) = .ok [] ∧
      (resize .never o).run.run after = (.ok (), after) := by
  intro B o
  let before : Workbench B := ⟨greyPhoto, [], false⟩
  have hpixelled : (B.shape before.handle).Pixelled := ⟨by decide, by decide⟩
  have hsettles : o.Settles := trivial
  have hsucceeds : ((resize .never o).run.run before).1.isOk = true := by decide +kernel
  rcases hrun : (resize .never o).run.run before with ⟨result, after⟩
  rw [hrun] at hsucceeds
  cases result with
  | error e => cases hsucceeds
  | ok value =>
    exact ⟨after, rfl, resize_twice (pixels_followsSketch {} _) rfl rfl hsettles .never .never
      hpixelled hrun⟩

end Task

end ImagePipeline
