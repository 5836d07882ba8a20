import ImagePipeline.Proofs.Geometry.Planners
import ImagePipeline.Proofs.Pipeline.ResizeTwice

/-!
# Exact canvases

Three modes make a canvas that is exactly as large as the box they aim at (`Task.resize_canvas`): a
padded image always does, a filled or stretched one whenever anything is done to it. Each of them
ends with a step that knows the sides of the canvas and does not depend on the factors used before.
-/

namespace ImagePipeline

/-! ### Last steps -/

namespace Task

section

variable {σ : Type} [Scale σ] {B : Backend σ} (interruption : Interruption σ)

theorem followPlan_append (first second : List GeometryStep) :
    (followPlan interruption (first ++ second) : Task B Unit)
      = followPlan interruption first >>= fun _ => followPlan interruption second := by
  induction first with
  | nil => rfl
  | cons step rest ih => simp only [List.cons_append, followPlan, ih, bind_assoc]

/-- The handle that a plan leaves is what its last step has made of some handle. -/
theorem edit_of_followPlan_concat (first : List GeometryStep) {step : GeometryStep}
    {before after : Workbench B}
    (h : (followPlan interruption (first ++ [step])).run.run before = (.ok (), after)) :
    ∃ middle : B.Handle, B.edit (changeOf (B.shape middle) step) middle = .ok after.handle := by
  rw [followPlan_append] at h
  obtain ⟨_, middle, -, hlast⟩ := run_bind_inv h
  exact ⟨middle.handle, edit_of_followPlan interruption hlast⟩

end

/-! ### Canvases -/

section

variable {σ : Type} [Scale σ] {limits : Limits} {load : ByteArray → Except BackendError Photo}
  {interruption : Interruption σ} {o : ResizeOptions}
  {before after : Workbench (pixels (σ := σ) limits load)}

theorem reshape_of_unlessLimited {reason : Bool} {step : GeometryStep}
    (hplan : o.unlessLimited reason step ≠ [])
    (hrun : (followPlan interruption (o.unlessLimited reason step)).run.run before
      = (.ok (), after)) :
    after.handle.picture.shape
      = (changeOf before.handle.picture.shape step : Edit σ).reshape
          before.handle.picture.shape := by
  rw [ResizeOptions.unlessLimited_of_ne hplan] at hrun
  exact Photo.edit_reshape (edit_of_followPlan interruption hrun)

theorem pad_frames
    (hrun : (followPlan interruption (o.planPad before.handle.picture.shape)).run.run before
      = (.ok (), after)) :
    (o.box before.handle.picture.shape).whole.Frames after.handle.picture.shape := by
  let source : Shape := before.handle.picture.shape
  let box := (o.box source).coalesced
  let scale := Scale.smaller (box.wscale source) (box.hscale source)
  -- Whatever the scaling has left, the canvas around it is the box.
  obtain ⟨middle, hedit⟩ :=
    edit_of_followPlan_concat interruption [.resizeAxes scale scale .linear] hrun
  have hshape : after.handle.picture.shape = _ := Photo.edit_reshape hedit
  rw [hshape, ← TargetBox.coalesced_eq_whole]
  exact ⟨rfl, rfl⟩

theorem fill_frames [CoveringScale σ] (hpixelled : before.handle.picture.shape.Pixelled)
    (hplan : o.planFill before.handle.picture.shape ≠ [])
    (hrun : (followPlan interruption (o.planFill before.handle.picture.shape)).run.run before
      = (.ok (), after)) :
    (o.box before.handle.picture.shape).whole.Frames after.handle.picture.shape := by
  rw [ResizeOptions.planFill_eq] at hplan hrun
  have hshape := reshape_of_unlessLimited hplan hrun
  rw [hshape, ← TargetBox.coalesced_eq_whole]
  simp only [changeOf, Edit.reshape]
  rw [Thumbnail.reshape_centre hpixelled]
  exact ⟨rfl, rfl⟩

theorem fixed_frames
    (hknown : (o.box before.handle.picture.shape).w ≠ 0 ∧
      (o.box before.handle.picture.shape).h ≠ 0)
    (hplan : o.planFixed before.handle.picture.shape ≠ [])
    (hrun : (followPlan interruption (o.planFixed before.handle.picture.shape)).run.run before
      = (.ok (), after)) :
    (o.box before.handle.picture.shape).Frames after.handle.picture.shape := by
  rw [ResizeOptions.planFixed_of_sides hknown] at hplan hrun
  have hshape := reshape_of_unlessLimited hplan hrun
  rw [hshape]
  exact ⟨rfl, rfl⟩

/-- A resize that has succeeded on an image with pixels has left a canvas exactly as large as the
box: padding does so under every limit, filling and stretching to a box with both sides when the
limit has not suppressed them. The box has pixels once a missing side is copied. -/
theorem resize_canvas [CoveringScale σ] (hedges : o.hasEdges = true)
    (hpixelled : before.handle.picture.shape.Pixelled)
    (hrun : (resize interruption o).run.run before = (.ok (), after)) :
    let source := before.handle.picture.shape
    let canvas := after.handle.picture.shape
    ∃ box, o.Aims source box ∧
      (1 ≤ box.whole.w.toNat ∧ 1 ≤ box.whole.h.toNat) ∧
      (o.mode = .pad → box.whole.Frames canvas) ∧
      (o.mode = .fill → o.plan source ≠ .ok [] → box.whole.Frames canvas) ∧
      (o.mode = .fixed → box.w ≠ 0 → box.h ≠ 0 → o.plan source ≠ .ok [] → box.Frames canvas) := by
  intro source canvas
  have hplan : o.plan source = .ok (o.planMode source) :=
    ResizeOptions.plan_of_edges hedges hpixelled
  have hfollowed : (followPlan interruption (o.planMode source)).run.run before
      = (.ok (), after) := by
    have hshape : (pixels (σ := σ) limits load).shape before.handle = source := rfl
    rwa [run_resize, hshape, hplan] at hrun
  have hnonempty (h : o.plan source ≠ .ok []) : o.planMode source ≠ [] := by
    intro hempty
    rw [hplan, hempty] at h
    exact h rfl
  obtain ⟨hw, hh⟩ := TargetBox.whole_ne (ResizeOptions.known_box hedges source)
  refine ⟨o.box source, o.aims_box source, ?_, ?_, ?_, ?_⟩
  · exact ⟨Number.pos_of_ne_zero hw, Number.pos_of_ne_zero hh⟩
  · intro hmode
    simp only [ResizeOptions.planMode, hmode] at hfollowed
    exact pad_frames hfollowed
  · intro hmode hplanned
    have hsome := hnonempty hplanned
    simp only [ResizeOptions.planMode, hmode] at hfollowed hsome
    exact fill_frames hpixelled hsome hfollowed
  · intro hmode hwidth hheight hplanned
    have hsome := hnonempty hplanned
    simp only [ResizeOptions.planMode, hmode] at hfollowed hsome
    exact fixed_frames ⟨hwidth, hheight⟩ hsome hfollowed

/-- Five by four pixels are padded to the square of their long edge. -/
theorem resize_canvas_of_grey :
    let B : Backend Rat := pixels {}
    let o : ResizeOptions := { l := 7, mode := .pad }
    ∃ after : Workbench B, (resize .never o).run.run ⟨greyPhoto, [], false⟩ = (.ok (), after) ∧
      (⟨7, 7⟩ : TargetBox).Frames after.handle.picture.shape := by
  intro B o
  let before : Workbench B := ⟨greyPhoto, [], false⟩
  have hpixelled : (B.shape before.handle).Pixelled := ⟨by decide, by decide⟩
  have hsucceeds : ((resize .never o).run.run before).1.isOk = true := by decide +kernel
  rcases hrun : (resize .never o).run.run before with ⟨result, after⟩
  rw [hrun] at hsucceeds
  cases result with
  | error e => cases hsucceeds
  | ok value =>
    obtain ⟨box, haims, -, hpad, -, -⟩ := resize_canvas rfl hpixelled hrun
    refine ⟨after, rfl, ?_⟩
    have hbox : box.whole = ⟨7, 7⟩ := by
      cases haims with
      | sized given => exact absurd given (by decide)
      | wide _ _ _ => rfl
      | tall _ _ tall => exact absurd tall (by decide)
    rw [← hbox]
    exact hpad rfl

end

end Task

end ImagePipeline
