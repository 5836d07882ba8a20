import ImagePipeline.Proofs.Geometry.DoubleScale
import ImagePipeline.Proofs.Pipeline.Change

/-!
# Sessions

Changes are made one after the other on the same photo, whatever its colour type and their arguments
are and however many of them fail. A change that fails leaves the photo exactly as it was; one that
makes a canvas leaves a picture that has pixels and no more of them than the limit allows
(`Photo.session_sound`).
-/

namespace ImagePipeline

variable {σ : Type} [Scale σ]

/-- The change works on the picture as it is; the others make a canvas. -/
def Edit.keepsSides : Edit σ → Bool
  | .resize .. => false
  | .resizeAxes .. => false
  | .thumbnail .. => false
  | .embed .. => false
  | .addAlpha => true
  | .watermark _ => true
  | .blur .. => true

namespace Edit

theorem reshape_of_keepsSides {change : Edit σ} (h : change.keepsSides = true) (shape : Shape) :
    (change.reshape shape).width = shape.width ∧ (change.reshape shape).height = shape.height := by
  cases change with
  | addAlpha => exact ⟨rfl, rfl⟩
  | watermark params => exact ⟨rfl, rfl⟩
  | blur sigma minAmplitude => exact ⟨rfl, rfl⟩
  | resize | resizeAxes | thumbnail | embed => cases h

theorem reshape_hasAlpha (change : Edit σ) {shape : Shape} (h : shape.hasAlpha = true) :
    (change.reshape shape).hasAlpha = true := by
  cases change with
  | addAlpha => rfl
  | thumbnail width height interest sizing =>
    cases sizing with
    | force => exact h
    | both =>
      cases interest with
      | centre => exact h
      | all =>
        simp only [reshape, Thumbnail.reshape]
        split
        · exact h
        · exact h
  | resize | resizeAxes | embed | watermark | blur => exact h

variable [LawfulScale σ]

/-- A canvas has pixels and keeps to the limit. -/
theorem reshape_canvas {change : Edit σ} {limits : Limits} {shape : Shape}
    (hpixelled : shape.Pixelled) (hkeeps : change.keepsSides = false)
    (hadmissible : change.Admissible shape) (hfits : change.Fits limits shape) :
    (change.reshape shape).Pixelled ∧
      limits.Allows ((change.reshape shape).width.toNat, (change.reshape shape).height.toNat) := by
  cases change with
  | resize scale kernel =>
    refine ⟨Shape.pixelled_of_one_le ⟨?_, ?_⟩, hfits _ rfl⟩
    · exact LawfulScale.one_le_side scale shape.width
    · exact LawfulScale.one_le_side scale shape.height
  | resizeAxes hscale vscale kernel =>
    refine ⟨Shape.pixelled_of_one_le ⟨?_, ?_⟩, hfits _ rfl⟩
    · exact LawfulScale.one_le_side hscale shape.width
    · exact LawfulScale.one_le_side vscale shape.height
  | embed x y width height background => exact ⟨⟨hadmissible.1, hadmissible.2⟩, hfits _ rfl⟩
  | thumbnail width height interest sizing =>
    have hsides := Thumbnail.reshape_sides (σ := σ) hpixelled.width_ne hpixelled.height_ne
      hadmissible interest sizing
    have hallows := hfits _ rfl
    refine ⟨Shape.pixelled_of_one_le hsides.1, ?_, ?_, ?_⟩
    · exact hsides.2.1.trans hallows.width_le
    · exact hsides.2.2.trans hallows.height_le
    · exact (Nat.mul_le_mul hsides.2.1 hsides.2.2).trans hallows.pixels_le
  | addAlpha | watermark | blur => cases hkeeps

end Edit

/-! ### One change -/

/-- What a change may do to a photo, whether it fails or not. -/
structure Photo.Respects (limits : Limits) (change : Edit σ) (before : Photo)
    (outcome : Except BackendError Unit × Photo) : Prop where
  error_same : ∀ e, outcome.1 = .error e → outcome.2 = before
  format_eq : outcome.2.format = before.format
  keeps_alpha : before.picture.hasAlpha = true → outcome.2.picture.hasAlpha = true
  keeps_sides : change.keepsSides = true →
    outcome.2.picture.width = before.picture.width ∧
      outcome.2.picture.height = before.picture.height
  pixelled : outcome.2.picture.shape.Pixelled
  bounded : outcome.1 = .ok () → change.keepsSides = false →
    limits.Allows (outcome.2.picture.width.toNat, outcome.2.picture.height.toNat)

theorem Photo.attempt_respects [LawfulScale σ] (limits : Limits) (change : Edit σ) {before : Photo}
    (hpixelled : before.picture.shape.Pixelled) :
    Respects limits change before (before.attempt limits change) := by
  have hcases := before.attempt_cases limits change
  generalize before.attempt limits change = outcome at hcases
  cases hcases with
  | senseless _ =>
    refine ⟨fun _ _ => rfl, rfl, id, fun _ => ⟨rfl, rfl⟩, hpixelled, ?_⟩
    intro hok
    cases hok
  | oversized _ =>
    refine ⟨fun _ _ => rfl, rfl, id, fun _ => ⟨rfl, rfl⟩, hpixelled, ?_⟩
    intro hok
    cases hok
  | @made p hadmissible hfits hreshaped =>
    have halpha (h : before.picture.hasAlpha = true) : p.shape.hasAlpha = true := by
      rw [hreshaped]
      exact change.reshape_hasAlpha h
    have hsides (h : change.keepsSides = true) : p.shape.width = before.picture.width ∧
        p.shape.height = before.picture.height := by
      rw [hreshaped]
      exact Edit.reshape_of_keepsSides h _
    have hcanvas (h : change.keepsSides = false) :=
      Edit.reshape_canvas hpixelled h hadmissible hfits
    rw [← hreshaped] at hcanvas
    refine ⟨?_, rfl, halpha, hsides, ?_, fun _ h => (hcanvas h).2⟩
    · intro e herror
      cases herror
    · cases hkeeps : change.keepsSides with
      | true =>
        obtain ⟨hwidth, hheight⟩ := hsides hkeeps
        exact ⟨hwidth ▸ hpixelled.width_ne, hheight ▸ hpixelled.height_ne⟩
      | false => exact (hcanvas hkeeps).1

/-! ### Many changes -/

/-- Every change of a session respects the photo that it is tried on. -/
inductive Photo.Sound (limits : Limits) :
    List (Edit σ) → Photo → List (Except BackendError Unit × Photo) → Prop where
  | nil {photo : Photo} : Sound limits [] photo []
  | cons {change : Edit σ} {rest : List (Edit σ)} {photo : Photo}
      {outcome : Except BackendError Unit × Photo} {outcomes}
      (step : Respects limits change photo outcome)
      (after : Sound limits rest outcome.2 outcomes) :
      Sound limits (change :: rest) photo (outcome :: outcomes)

omit [Scale σ] in
theorem Photo.Sound.keeps {limits : Limits} {changes : List (Edit σ)} {photo : Photo}
    {outcomes : List (Except BackendError Unit × Photo)} (h : Sound limits changes photo outcomes) :
    ∀ outcome ∈ outcomes, outcome.2.format = photo.format ∧
      (photo.picture.hasAlpha = true → outcome.2.picture.hasAlpha = true) := by
  induction h with
  | nil => exact List.forall_mem_nil _
  | cons step _ ih =>
    refine List.forall_mem_cons.mpr ⟨⟨step.format_eq, step.keeps_alpha⟩, ?_⟩
    intro outcome hmem
    obtain ⟨hformat, halpha⟩ := ih outcome hmem
    exact ⟨hformat.trans step.format_eq, fun h => halpha (step.keeps_alpha h)⟩

theorem Photo.session_respects [LawfulScale σ] (limits : Limits) (changes : List (Edit σ))
    {photo : Photo} (hpixelled : photo.picture.shape.Pixelled) :
    Sound limits changes photo (photo.session limits changes) := by
  induction changes generalizing photo with
  | nil => exact .nil
  | cons change rest ih =>
    have hstep := photo.attempt_respects limits change hpixelled
    exact .cons hstep (ih hstep.pixelled)

/-- A session with any factors, those that are no numbers included, on a photo of any colour type
that has pixels: every change respects the photo it is tried on, and the container and an alpha
channel are there to the end. -/
theorem Photo.session_sound (limits : Limits) (changes : List (Edit Float)) {photo : Photo}
    (hpixelled : photo.picture.shape.Pixelled) :
    Sound limits changes photo (photo.session limits changes) ∧
      ∀ outcome ∈ photo.session limits changes, outcome.2.format = photo.format ∧
        (photo.picture.hasAlpha = true → outcome.2.picture.hasAlpha = true) := by
  have hsound := session_respects limits changes hpixelled
  exact ⟨hsound, hsound.keeps⟩

/-- Two white pixels of floating-point samples. -/
def Photo.white : Photo :=
  ⟨⟨.float false, Raster.uniform 2 1 (#v[1, 1, 1] : Vector Float32 3)⟩, .tiff⟩

/-- They get an alpha channel and survive a factor that is no number. -/
theorem Photo.session_sound_of_white :
    white.picture.shape.Pixelled ∧
      Sound {} [.addAlpha, .resize (0 / 0 : Float) .linear] white
        (white.session {} [.addAlpha, .resize (0 / 0 : Float) .linear]) := by
  have hpixelled : white.picture.shape.Pixelled := ⟨by decide, by decide⟩
  exact ⟨hpixelled, (Photo.session_sound {} _ hpixelled).1⟩

end ImagePipeline
