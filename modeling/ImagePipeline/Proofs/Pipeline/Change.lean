import ImagePipeline.Pipeline.Pixels
import ImagePipeline.Proofs.Geometry.Covering
import ImagePipeline.Proofs.Picture.Sides

/-!
# What becomes of a change

A change of a photo either has arguments that mean nothing, or is too large, or is made
(`Photo.Attempt`); in the first two cases the photo is the one it was. The shape of the new picture
follows from the shape of the old one (`Edit.reshape`).
-/

namespace ImagePipeline

variable {σ : Type} [Scale σ]

/-! ### What a change asks for -/

/-- The arguments of a change mean something for an image of the given shape. -/
def Edit.Admissible (change : Edit σ) (shape : Shape) : Prop :=
  match change with
  | .resize scale _ => Scale.isPositive scale = true
  | .resizeAxes hscale vscale _ => Scale.isPositive hscale = true ∧ Scale.isPositive vscale = true
  | .thumbnail width height _ _ => width ≠ 0 ∧ height ≠ 0
  | .embed _ _ width height _ => width ≠ 0 ∧ height ≠ 0
  | .addAlpha => True
  | .watermark _ => shape.hasAlpha = true
  | .blur sigma _ => sigma.isNaN = false ∧ ¬ sigma ≤ 0

/-- The sides of the canvas by which a change is found too large, if it makes one. -/
def Edit.canvas? (change : Edit σ) (shape : Shape) : Option (Nat × Nat) :=
  match change with
  | .resize scale _ =>
    some ((Scale.side scale shape.width).toNat, (Scale.side scale shape.height).toNat)
  | .resizeAxes hscale vscale _ =>
    some ((Scale.side hscale shape.width).toNat, (Scale.side vscale shape.height).toNat)
  | .thumbnail width height interest sizing =>
    some (Thumbnail.bound σ shape width height interest sizing)
  | .embed _ _ width height _ => some (width.toNat, height.toNat)
  | .addAlpha => none
  | .watermark params => some (Watermark.tileExtent params)
  | .blur .. => none

structure Limits.Allows (limits : Limits) (sides : Nat × Nat) : Prop where
  width_le : sides.1 ≤ Number.maxUInt32
  height_le : sides.2 ≤ Number.maxUInt32
  pixels_le : sides.1 * sides.2 ≤ limits.maxOutputPixels.toNat

def Edit.Fits (change : Edit σ) (limits : Limits) (shape : Shape) : Prop :=
  ∀ sides, change.canvas? shape = some sides → limits.Allows sides

/-- The shape that a change makes of a shape. -/
def Edit.reshape (change : Edit σ) (shape : Shape) : Shape :=
  match change with
  | .resize scale _ =>
    { shape with width := Scale.side scale shape.width, height := Scale.side scale shape.height }
  | .resizeAxes hscale vscale _ =>
    { shape with width := Scale.side hscale shape.width, height := Scale.side vscale shape.height }
  | .thumbnail width height interest sizing =>
    Thumbnail.reshape σ shape width height interest sizing
  | .embed _ _ width height _ => { shape with width := width, height := height }
  | .addAlpha => { shape with hasAlpha := true }
  | .watermark _ => shape
  | .blur .. => shape

/-! ### Limits -/

theorem Limits.check_cases (limits : Limits) (what : String) (width height : Nat) :
    (∃ d, limits.check what width height = .error (.tooLarge d)) ∨
      limits.check what width height = .ok () ∧ limits.Allows (width, height) := by
  unfold check
  split
  · exact .inl ⟨_, rfl⟩
  · rename_i hfits
    have hwidth : width ≤ Number.maxUInt32 := by omega
    have hheight : height ≤ Number.maxUInt32 := by omega
    have hproduct : width * height ≤ Number.maxUInt32 * Number.maxUInt32 :=
      Nat.mul_le_mul hwidth hheight
    have hsquare : Number.maxUInt32 * Number.maxUInt32 ≤ Number.maxUInt64 := by decide
    have hpixels : width * height ≤ limits.maxOutputPixels.toNat := by
      unfold Number.capped at hfits
      omega
    exact .inr ⟨rfl, hwidth, hheight, hpixels⟩

theorem Limits.allows_of_check (limits : Limits) {what : String} {width height : Nat}
    (h : limits.check what width height = .ok ()) : limits.Allows (width, height) := by
  rcases limits.check_cases what width height with ⟨d, herror⟩ | ⟨-, hallows⟩
  · rw [h] at herror
    cases herror
  · exact hallows

theorem Limits.check_ok {limits : Limits} {width height : UInt32}
    (hfits : width.toNat * height.toNat ≤ limits.maxOutputPixels.toNat) (what : String) :
    limits.check what width.toNat height.toNat = .ok () := by
  have hwidth := width.toNat_lt
  have hheight := height.toNat_lt
  have hcapped : Number.capped (width.toNat * height.toNat) ≤ width.toNat * height.toNat :=
    Nat.min_le_left _ _
  unfold check
  rw [if_neg]
  simp only [Number.maxUInt32]
  omega

/-! ### The three ways -/

/-- What becomes of a change of a photo. -/
inductive Photo.Attempt (limits : Limits) (change : Edit σ) (photo : Photo) :
    Except BackendError Unit × Photo → Prop where
  | senseless {d : String} (inadmissible : ¬ change.Admissible photo.picture.shape) :
      Attempt limits change photo (.error (.processingFailed d), photo)
  | oversized {d : String} (admissible : change.Admissible photo.picture.shape) :
      Attempt limits change photo (.error (.tooLarge d), photo)
  | made {p : Picture} (admissible : change.Admissible photo.picture.shape)
      (fits : change.Fits limits photo.picture.shape)
      (reshaped : p.shape = change.reshape photo.picture.shape) :
      Attempt limits change photo (.ok (), { photo with picture := p })

namespace PhotoWork

variable (limits : Limits) (photo : Photo)

theorem run_check_bind {α : Type} (what : String) (width height : Nat)
    (next : Unit → PhotoWork α) :
    ((liftM (limits.check what width height) : PhotoWork Unit) >>= next).run.run photo
      = match limits.check what width height with
        | .ok _ => (next ()).run.run photo
        | .error e => (.error e, photo) := by
  cases limits.check what width height <;> rfl

theorem checked_attempt {change : Edit σ} {what : String} {width height : Nat} {p : Picture}
    {next : Unit → PhotoWork Unit} (hadmissible : change.Admissible photo.picture.shape)
    (hcanvas : change.canvas? photo.picture.shape = some (width, height))
    (hnext : (next ()).run.run photo = (.ok (), { photo with picture := p }))
    (hreshape : p.shape = change.reshape photo.picture.shape) :
    Photo.Attempt limits change photo
      (((liftM (limits.check what width height) : PhotoWork Unit) >>= next).run.run photo) := by
  rw [run_check_bind]
  rcases limits.check_cases what width height with ⟨d, hcheck⟩ | ⟨hcheck, hallows⟩
  · rw [hcheck]
    exact .oversized hadmissible
  · rw [hcheck]
    dsimp only
    rw [hnext]
    refine .made hadmissible ?_ hreshape
    intro sides hsides
    rw [hcanvas] at hsides
    cases hsides
    exact hallows

theorem scale_attempt {change : Edit σ} {hscale vscale : σ} {kernel : Kernel}
    (hadmissible : change.Admissible photo.picture.shape
      ↔ (Scale.isPositive hscale && Scale.isPositive vscale) = true)
    (hcanvas : change.canvas? photo.picture.shape
      = some ((Scale.side hscale photo.picture.width).toNat,
          (Scale.side vscale photo.picture.height).toNat))
    (hreshape : change.reshape photo.picture.shape
      = ⟨Scale.side hscale photo.picture.width, Scale.side vscale photo.picture.height,
          photo.picture.hasAlpha⟩) :
    Photo.Attempt limits change photo ((scale limits hscale vscale kernel).run.run photo) := by
  unfold scale
  cases hpositive : Scale.isPositive hscale && Scale.isPositive vscale with
  | false =>
    refine .senseless ?_
    rw [hadmissible, hpositive]
    exact Bool.false_ne_true
  | true =>
    refine checked_attempt limits photo (hadmissible.mpr hpositive) hcanvas rfl ?_
    rw [hreshape]
    exact Picture.shape_resized photo.picture kernel _ _

/-- A change for which two sides are asked, neither of them zero. -/
theorem sided_attempt {change : Edit σ} {width height : UInt32} {refusal next : PhotoWork Unit}
    {d : String} (hadmissible : change.Admissible photo.picture.shape ↔ width ≠ 0 ∧ height ≠ 0)
    (hrefusal : refusal.run.run photo = (.error (.processingFailed d), photo))
    (hnext : width ≠ 0 ∧ height ≠ 0 → Photo.Attempt limits change photo (next.run.run photo)) :
    Photo.Attempt limits change photo
      ((if width = 0 ∨ height = 0 then refusal else next).run.run photo) := by
  by_cases hzero : width = 0 ∨ height = 0
  · rw [if_pos hzero, hrefusal]
    refine .senseless ?_
    rw [hadmissible, ← not_or, not_not]
    exact hzero
  · rw [if_neg hzero]
    exact hnext (not_or.mp hzero)

theorem shape_thumbnailed (p : Picture) (width height : UInt32) (interest : Interest)
    (sizing : Sizing) :
    (p.thumbnailed σ width height interest sizing).shape
      = Thumbnail.reshape σ p.shape width height interest sizing := by
  cases sizing with
  | force => exact p.shape_resized .lanczos3 width height
  | both =>
    cases interest with
    | centre => exact p.shape_resizedWithin .lanczos3 _ _ width height
    | all =>
      by_cases hsame : p.width = width ∧ p.height = height
      · simp only [Picture.thumbnailed, Thumbnail.reshape, Picture.shape_width,
          Picture.shape_height, hsame, and_self, if_true]
      · simp only [Picture.thumbnailed, Thumbnail.reshape, Picture.shape_width,
          Picture.shape_height, hsame, if_false]
        exact p.shape_resized .lanczos3 _ _

theorem thumbnail_attempt (width height : UInt32) (interest : Interest) (sizing : Sizing) :
    Photo.Attempt limits (.thumbnail width height interest sizing : Edit σ) photo
      ((thumbnail σ limits width height interest sizing).run.run photo) := by
  refine sided_attempt limits photo Iff.rfl rfl fun hsides => ?_
  exact checked_attempt limits photo hsides rfl rfl
    (shape_thumbnailed photo.picture width height interest sizing)

theorem embed_attempt (x y : Int) (width height : UInt32) (background : Background) :
    Photo.Attempt limits (.embed x y width height background : Edit σ) photo
      ((embed limits x y width height background).run.run photo) := by
  refine sided_attempt limits photo Iff.rfl rfl fun hsides => ?_
  exact checked_attempt limits photo hsides rfl rfl
    (photo.picture.shape_embedded x y width height background)

variable {photo} in
theorem run_watermarkBy (halpha : photo.picture.hasAlpha = true)
    (render : WatermarkParams → Option (Raster Rgba)) (params : WatermarkParams) :
    (watermarkBy render limits params).run.run photo
      = match limits.check "watermark tile" (Watermark.tileExtent params).1
          (Watermark.tileExtent params).2 with
        | .error e => (.error e, photo)
        | .ok _ =>
          match render params with
          | none => (.error (.tooLarge ("watermark tile of "
              ++ Limits.sidesText (Watermark.tileExtent params).1 (Watermark.tileExtent params).2)),
              photo)
          | some tile =>
            let marked := photo.picture.watermarked tile params.replicate
            (.ok (), { photo with picture := marked }) := by
  unfold watermarkBy
  change StateT.run (ExceptT.run
    (if !photo.picture.hasAlpha then throw .needsAlpha
    else (liftM (limits.check "watermark tile" (Watermark.tileExtent params).1
      (Watermark.tileExtent params).2) : PhotoWork Unit) >>= _)) photo = _
  simp only [halpha, Bool.not_true, Bool.false_eq_true, if_false]
  rw [run_check_bind]
  cases limits.check "watermark tile" (Watermark.tileExtent params).1
    (Watermark.tileExtent params).2 with
  | error e => rfl
  | ok _ =>
    cases render params with
    | none => rfl
    | some tile => rfl

theorem watermarkBy_attempt (render : WatermarkParams → Option (Raster Rgba))
    (params : WatermarkParams) :
    Photo.Attempt limits (.watermark params : Edit σ) photo
      ((watermarkBy render limits params).run.run photo) := by
  cases halpha : photo.picture.hasAlpha with
  | false =>
    have hrefused : (watermarkBy render limits params).run.run photo
        = (.error .needsAlpha, photo) := by
      unfold watermarkBy
      change StateT.run (ExceptT.run
        (if !photo.picture.hasAlpha then throw BackendError.needsAlpha else _)) photo = _
      rw [halpha]
      rfl
    rw [hrefused]
    refine .senseless ?_
    rw [Edit.Admissible, Picture.shape_hasAlpha, halpha]
    exact Bool.false_ne_true
  | true =>
    rw [run_watermarkBy limits halpha]
    rcases limits.check_cases "watermark tile" (Watermark.tileExtent params).1
      (Watermark.tileExtent params).2 with ⟨d, hcheck⟩ | ⟨hcheck, hallows⟩
    · rw [hcheck]
      exact .oversized halpha
    · rw [hcheck]
      dsimp only
      cases render params with
      | none => exact .oversized halpha
      | some tile =>
        refine .made halpha ?_ ?_
        · intro sides hsides
          cases hsides
          exact hallows
        · rw [Picture.shape_watermarked, ← halpha]
          rfl

theorem blur_attempt (sigma minAmplitude : Float) :
    Photo.Attempt limits (.blur sigma minAmplitude : Edit σ) photo
      ((blur sigma minAmplitude).run.run photo) := by
  unfold blur
  have hshape := photo.picture.shape_blurred sigma minAmplitude
  cases hnan : sigma.isNaN with
  | true =>
    refine .senseless ?_
    rw [Edit.Admissible, hnan]
    exact fun hadmissible => Bool.false_ne_true hadmissible.1.symm
  | false =>
    by_cases hnonpositive : sigma ≤ 0
    · simp only [hnonpositive, decide_true, Bool.or_true, if_true]
      exact .senseless fun hadmissible => hadmissible.2 hnonpositive
    · simp only [hnonpositive, decide_false, Bool.or_false, Bool.false_eq_true, if_false]
      refine .made ⟨hnan, hnonpositive⟩ ?_ hshape
      intro sides hsides
      cases hsides

end PhotoWork

/-- A change that is tried ends in one of the three ways. -/
theorem Photo.attempt_cases (limits : Limits) (change : Edit σ) (photo : Photo) :
    Photo.Attempt limits change photo (photo.attempt limits change) := by
  cases change with
  | resize scale kernel =>
    refine PhotoWork.scale_attempt limits photo ?_ rfl rfl
    rw [Bool.and_self]
    exact Iff.rfl
  | resizeAxes hscale vscale kernel =>
    refine PhotoWork.scale_attempt limits photo ?_ rfl rfl
    rw [Bool.and_eq_true]
    exact Iff.rfl
  | thumbnail width height interest sizing =>
    exact PhotoWork.thumbnail_attempt limits photo width height interest sizing
  | embed x y width height background =>
    exact PhotoWork.embed_attempt limits photo x y width height background
  | addAlpha =>
    refine .made trivial ?_ photo.picture.shape_withAlpha
    intro sides hsides
    cases hsides
  | watermark params =>
    exact PhotoWork.watermarkBy_attempt limits photo Watermark.renderTile params
  | blur sigma minAmplitude => exact PhotoWork.blur_attempt limits photo sigma minAmplitude

/-! ### The photo after a change -/

namespace Photo

variable {limits : Limits} {change : Edit σ} {photo changed : Photo}

theorem attempt_of_edit_ok (h : photo.edit limits change = .ok changed) :
    photo.attempt limits change = (.ok (), changed) := by
  unfold edit at h
  split at h
  · cases h
  · rename_i hattempt
    cases h
    exact hattempt

/-- What is known of a change that has been made. -/
structure Made (limits : Limits) (change : Edit σ) (photo changed : Photo) : Prop where
  admissible : change.Admissible photo.picture.shape
  fits : change.Fits limits photo.picture.shape
  format_eq : changed.format = photo.format
  shape_eq : changed.picture.shape = change.reshape photo.picture.shape

theorem made_of_edit (h : photo.edit limits change = .ok changed) :
    Made limits change photo changed := by
  have hcases := photo.attempt_cases limits change
  rw [attempt_of_edit_ok h] at hcases
  cases hcases with
  | made hadmissible hfits hreshaped => exact ⟨hadmissible, hfits, rfl, hreshaped⟩

theorem edit_reshape (h : photo.edit limits change = .ok changed) :
    changed.picture.shape = change.reshape photo.picture.shape := (made_of_edit h).shape_eq

/-- A thumbnail whose bound passes is made. -/
theorem edit_thumbnail_of_check {width height : UInt32} {interest : Interest} {sizing : Sizing}
    (hbox : width ≠ 0 ∧ height ≠ 0)
    (hcheck : limits.check "thumbnail"
      (Thumbnail.bound σ photo.picture.shape width height interest sizing).1
      (Thumbnail.bound σ photo.picture.shape width height interest sizing).2 = .ok ()) :
    photo.edit limits (.thumbnail width height interest sizing : Edit σ)
      = .ok { photo with picture := photo.picture.thumbnailed σ width height interest sizing } := by
  have hattempt : photo.attempt limits (.thumbnail width height interest sizing : Edit σ)
      = (.ok (),
        { photo with picture := photo.picture.thumbnailed σ width height interest sizing }) := by
    unfold attempt PhotoWork.change
    dsimp only
    rw [PhotoWork.thumbnail, if_neg (not_or.mpr hbox)]
    refine (PhotoWork.run_check_bind limits photo "thumbnail" _ _ fun _ => PhotoWork.assign
      (photo.picture.thumbnailed σ width height interest sizing)).trans ?_
    rw [hcheck]
    rfl
  rw [edit, hattempt]

/-- A change that means something can only fail because it is too large. -/
theorem edit_tooLarge (hadmissible : change.Admissible photo.picture.shape) {e : BackendError}
    (h : photo.edit limits change = .error e) : ∃ d, e = .tooLarge d := by
  unfold edit at h
  have hcases := photo.attempt_cases limits change
  generalize photo.attempt limits change = outcome at h hcases
  cases hcases with
  | senseless hinadmissible => exact absurd hadmissible hinadmissible
  | oversized _ =>
    cases h
    exact ⟨_, rfl⟩
  | made => cases h

end Photo

end ImagePipeline
