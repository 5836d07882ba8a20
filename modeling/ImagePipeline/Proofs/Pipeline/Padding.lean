import ImagePipeline.Proofs.Geometry.Fitting
import ImagePipeline.Proofs.Pipeline.ResizeTwice

/-!
# Padding crops nothing

A padded image is scaled into its canvas and embedded in the middle of it (`Task.pad_midway`). The
offsets are those of the sides that the image really has after the scaling, rounded as they are. No
side is rounded past the canvas, so no offset is negative, and halving it toward zero leaves what is
odd behind the image.
-/

namespace ImagePipeline

/-! ### Offsets -/

/-- A length lies inside a side from the start on, with as much room behind it as before it, or one
more. -/
structure Midway (length side : UInt32) (start : Int) : Prop where
  start_nonneg : 0 ≤ start
  inside : start + length.toNat ≤ side.toNat
  room_le : start ≤ side.toNat - (start + length.toNat)
  le_room : side.toNat - (start + length.toNat) ≤ start + 1

theorem midway_centeredOffset {length side : UInt32} (h : length ≤ side) :
    Midway length side (centeredOffset side length) := by
  have hle : (length.toNat : Int) ≤ side.toNat := by
    exact_mod_cast UInt32.le_iff_toNat_le.mp h
  have hoffset : centeredOffset side length = ((side.toNat : Int) - length.toNat) / 2 :=
    Int.tdiv_eq_ediv_of_nonneg (Int.sub_nonneg.mpr hle)
  rw [hoffset]
  constructor <;> omega

theorem Midway.start_eq {length side : UInt32} {start : Int} (h : Midway length side start) :
    start = ((side.toNat : Int) - length.toNat) / 2 := by
  obtain ⟨-, hinside, hle, hroom⟩ := h
  omega

/-! ### Two steps -/

namespace Task

/-- Once the first of two steps has succeeded the second is tried, for the shape that it has
left. -/
theorem calls_followPlan_pair {σ : Type} [Scale σ] {B : Backend σ} (interruption : Interruption σ)
    {first second : GeometryStep} {before : Workbench B} {middle : B.Handle}
    (hfirst : B.edit (changeOf (B.shape before.handle) first) before.handle = .ok middle) :
    ((followPlan interruption [first, second]).run.run before).2.calls
      = before.calls ++ [.edit (changeOf (B.shape before.handle) first),
          .edit (changeOf (B.shape middle) second)] := by
  let change : Edit σ := changeOf (B.shape before.handle) first
  let calls := before.calls ++ [.edit change]
  let halfway : Workbench B := ⟨middle, calls, before.cancelled || interruption.during calls⟩
  have hperform : (perform interruption change).run.run before = (.ok (), halfway) := by
    rw [run_perform, hfirst]
  rw [run_followPlan_cons, run_bind_ok hperform, run_followPlan_cons]
  change ((perform interruption _ >>= pure).run.run halfway).2.calls = _
  rw [bind_pure, run_perform]
  have hcalls : calls ++ [.edit (changeOf (B.shape middle) second)] = before.calls ++
      [.edit change, .edit (changeOf (B.shape middle) second)] := List.append_assoc _ _ _
  cases B.edit (changeOf (B.shape middle) second) middle with
  | ok handle => exact hcalls
  | error e => exact hcalls

/-! ### The canvas -/

/-- Padding an image with pixels scales it until it reaches its canvas on one side and passes it on
none. When the backend has made that scaling, the call that follows embeds the image in the middle
of the canvas, whatever becomes of that call. -/
theorem pad_midway {B : Backend Rat} (hsketch : B.FollowsSketch) (interruption : Interruption Rat)
    {o : ResizeOptions} (hmode : o.mode = .pad) (hedges : o.hasEdges = true) {bench : Workbench B}
    (hpixelled : (B.shape bench.handle).Pixelled) :
    let source := B.shape bench.handle
    ∃ box scale, ∃ x y : Int,
      let canvas := box.whole
      let scaled := source.scaled scale scale
      let scaling : Edit Rat := .resizeAxes scale scale .linear
      let background := o.padBackground source
      o.Aims source box ∧
      o.plan source = .ok [.resizeAxes scale scale .linear,
        .embedCentered canvas.w canvas.h background] ∧
      canvas.Encloses scaled ∧
      Midway scaled.width canvas.w x ∧ Midway scaled.height canvas.h y ∧
      ∀ middle, B.edit scaling bench.handle = .ok middle →
        B.shape middle = scaled ∧
        ((resize interruption o).run.run bench).2.calls = bench.calls ++
          [.edit scaling, .edit (.embed x y canvas.w canvas.h background)] := by
  intro source
  let box := o.box source
  let canvas := box.whole
  let scale := Scale.smaller (canvas.wscale source) (canvas.hscale source)
  let scaled := source.scaled scale scale
  let scaling : Edit Rat := .resizeAxes scale scale .linear
  let background := o.padBackground source
  have hplan : o.plan source = .ok [.resizeAxes scale scale .linear,
      .embedCentered canvas.w canvas.h background] := by
    rw [ResizeOptions.plan_of_edges hedges hpixelled]
    simp only [ResizeOptions.planMode, hmode, ResizeOptions.planPad, TargetBox.coalesced_eq_whole]
    rfl
  obtain ⟨hw, hh⟩ : canvas.w ≠ 0 ∧ canvas.h ≠ 0 :=
    TargetBox.whole_ne (ResizeOptions.known_box hedges source)
  have hencloses : canvas.Encloses scaled := TargetBox.encloses_smaller hpixelled hw hh
  refine ⟨box, scale, centeredOffset canvas.w scaled.width,
    centeredOffset canvas.h scaled.height, o.aims_box source, hplan, hencloses,
    midway_centeredOffset hencloses.width_le, midway_centeredOffset hencloses.height_le, ?_⟩
  intro middle hscaling
  have hexact : scaling.Exact := trivial
  have hshape : B.shape middle = scaled := hsketch.shape_edit hexact hpixelled hscaling
  refine ⟨hshape, ?_⟩
  have hembedding : changeOf (B.shape middle) (.embedCentered canvas.w canvas.h background)
      = (.embed (centeredOffset canvas.w scaled.width) (centeredOffset canvas.h scaled.height)
          canvas.w canvas.h background : Edit Rat) := by
    rw [hshape]
    rfl
  rw [run_resize, hplan, ← hembedding]
  exact calls_followPlan_pair interruption hscaling

/-- Five by four pixels become seven by six in a square of seven: the one row that is left over
lies below the image. -/
theorem pad_midway_of_grey :
    let B : Backend Rat := pixels {}
    let o : ResizeOptions := { l := 7, mode := .pad }
    let bench : Workbench B := ⟨greyPhoto, [], false⟩
    let scale : Rat := 7 / 5
    Midway 6 7 0 ∧ ((resize .never o).run.run bench).2.calls
      = [.edit (.resizeAxes scale scale .linear), .edit (.embed 0 0 7 7 .white)] := by
  intro B o bench scale
  have hpixelled : (B.shape bench.handle).Pixelled := ⟨by decide, by decide⟩
  have hmade : o.plan (B.shape bench.handle)
      = .ok [.resizeAxes scale scale .linear, .embedCentered 7 7 .white] := by
    decide +kernel
  have hscaled : (B.shape bench.handle).scaled scale scale = ⟨7, 6, false⟩ := by decide +kernel
  have hsucceeds : (B.edit (.resizeAxes scale scale .linear) bench.handle).isOk = true := by
    decide +kernel
  obtain ⟨box, _, x, y, -, hplan, -, hx, hy, hcalls⟩ :=
    pad_midway (pixels_followsSketch {} _) .never (o := o) rfl rfl hpixelled
  rw [hmade] at hplan
  simp only [Except.ok.injEq, List.cons.injEq, GeometryStep.resizeAxes.injEq,
    GeometryStep.embedCentered.injEq, and_true] at hplan
  obtain ⟨⟨rfl, -⟩, hw, hh, hbackground⟩ := hplan
  rw [hscaled, ← hw] at hx
  rw [hscaled, ← hh] at hy
  have hleft : x = 0 := hx.start_eq
  have habove : y = 0 := hy.start_eq
  rcases hscaling : B.edit (.resizeAxes scale scale .linear) bench.handle with e | middle
  · rw [hscaling] at hsucceeds
    cases hsucceeds
  · obtain ⟨-, hcalls⟩ := hcalls middle hscaling
    rw [hleft, habove, ← hw, ← hh, ← hbackground] at hcalls
    exact ⟨habove ▸ hy, hcalls⟩

end Task

end ImagePipeline
