import ImagePipeline.Proofs.Geometry.Scaling
import ImagePipeline.Proofs.Pipeline.Session

/-!
# The canvas between the passes

Before a change makes a canvas, the number of its pixels is looked at. That is the canvas in which
the change ends, or the larger one out of which it is cut; the canvas between the two passes of a
resampling (`Resample.between`) is nowhere looked at, and mixes the old width with the new height.
It is the only one that can be too large (`Photo.canvases_hold`), and it is so only when the picture
becomes narrower and taller: never where one exact factor scales both sides
(`Edit.Canvases.hold_of_even`).
-/

namespace ImagePipeline

/-! ### Two passes -/

namespace Resample

variable {α : Type} [Sample α] {n : Nat}

theorem raster_eq_rows {width height : UInt32} {r : Raster (Vector α n)}
    (hpixels : ¬ (r.width = 0 ∨ r.height = 0)) (hother : ¬ (r.width = width ∧ r.height = height))
    (kernel : Kernel) :
    raster kernel width height r
      = (rows kernel width (between kernel height r)).map fun p => p.map Sample.ofSingle := by
  rw [raster, if_neg hpixels, if_neg hother]

theorem size_between (kernel : Kernel) (height : UInt32) (r : Raster (Vector α n)) :
    (between kernel height r).pixels.size = r.width.toNat * height.toNat :=
  (between kernel height r).size_eq

theorem canvases_of_other {source : Shape} {width height : UInt32}
    (hpixels : source.isEmpty = false)
    (hother : ¬ (source.width = width ∧ source.height = height)) :
    canvases source width height = [(source.width, height), (width, height)] := by
  unfold canvases
  refine if_neg ?_
  rintro (hempty | hsame)
  · exact Bool.false_ne_true (hpixels.symm.trans hempty)
  · exact hother hsame

theorem mem_canvases {source : Shape} {width height : UInt32} {canvas : UInt32 × UInt32}
    (h : canvas ∈ canvases source width height) :
    canvas = (width, height) ∨ canvas = (source.width, height) := by
  unfold canvases at h
  split at h
  · exact .inl (List.mem_singleton.mp h)
  · rw [List.mem_cons, List.mem_singleton] at h
    exact h.symm

end Resample

/-! ### The canvases of a change -/

section

variable {σ : Type} [Scale σ]

/-- The sides to which a change resamples a picture, if that is what it does. -/
def Edit.resampled? (change : Edit σ) (shape : Shape) : Option (UInt32 × UInt32) :=
  match change with
  | .resize scale _ => some (Scale.side scale shape.width, Scale.side scale shape.height)
  | .resizeAxes hscale vscale _ =>
    some (Scale.side hscale shape.width, Scale.side vscale shape.height)
  | .thumbnail width height _ .force => some (width, height)
  | .thumbnail width height .all .both =>
    if shape.width = width ∧ shape.height = height then some (width, height)
    else some (Thumbnail.sides σ shape width height .all)
  | .thumbnail width height .centre .both => some (Thumbnail.sides σ shape width height .centre)
  | _ => none

/-- The canvas that a change cuts out of the resampled one. -/
def Edit.cutOut (change : Edit σ) (shape : Shape) : List (UInt32 × UInt32) :=
  match change with
  | .thumbnail _ _ .centre .both =>
    [((change.reshape shape).width, (change.reshape shape).height)]
  | _ => []

/-- The sides of the canvases of a change that resamples, in the order of their making. -/
def Edit.canvases (change : Edit σ) (shape : Shape) : List (UInt32 × UInt32) :=
  match change.resampled? shape with
  | some sides => Resample.canvases shape sides.1 sides.2 ++ change.cutOut shape
  | none => []

/-- A canvas has no more pixels than the limit allows. -/
def Limits.Holds (limits : Limits) (canvas : UInt32 × UInt32) : Prop :=
  canvas.1.toNat * canvas.2.toNat ≤ limits.maxOutputPixels.toNat

theorem Limits.Holds.mono {limits : Limits} {canvas larger : UInt32 × UInt32}
    (h : limits.Holds larger) (hwidth : canvas.1.toNat ≤ larger.1.toNat)
    (hheight : canvas.2.toNat ≤ larger.2.toNat) : limits.Holds canvas :=
  (Nat.mul_le_mul hwidth hheight).trans h

theorem Limits.Allows.holds {limits : Limits} {sides : Nat × Nat} {canvas : UInt32 × UInt32}
    (h : limits.Allows sides) (hwidth : canvas.1.toNat ≤ sides.1)
    (hheight : canvas.2.toNat ≤ sides.2) : limits.Holds canvas :=
  (Nat.mul_le_mul hwidth hheight).trans h.pixels_le

namespace Edit

variable {change : Edit σ} {limits : Limits} {shape : Shape} {sides : UInt32 × UInt32}

theorem resampled?_both {width height : UInt32} {interest : Interest}
    (h : (.thumbnail width height interest .both : Edit σ).resampled? shape = some sides) :
    sides = Thumbnail.sides σ shape width height interest ∨
      shape.width = width ∧ shape.height = height ∧ sides = (width, height) := by
  cases interest with
  | centre =>
    cases h
    exact .inl rfl
  | all =>
    rw [resampled?] at h
    split at h
    · rename_i hsame
      cases h
      exact .inr ⟨hsame.1, hsame.2, rfl⟩
    · cases h
      exact .inl rfl

/-- What was looked at before the change is no smaller than the canvas it resamples to. -/
theorem holds_resampled [LawfulScale σ] (hpixelled : shape.Pixelled)
    (hfits : change.Fits limits shape) (hsides : change.resampled? shape = some sides) :
    limits.Holds sides := by
  cases change with
  | resize scale kernel =>
    cases hsides
    exact (hfits _ rfl).pixels_le
  | resizeAxes hscale vscale kernel =>
    cases hsides
    exact (hfits _ rfl).pixels_le
  | thumbnail width height interest sizing =>
    have hallows := hfits _ rfl
    cases sizing with
    | force =>
      cases hsides
      exact hallows.pixels_le
    | both =>
      rcases resampled?_both hsides with rfl | ⟨rfl, rfl, rfl⟩
      · have hle := Thumbnail.sides_le_bound (σ := σ) hpixelled.width_ne hpixelled.height_ne
          width height interest
        exact hallows.holds hle.1 hle.2
      · have hle := Thumbnail.shape_le_bound (σ := σ) hpixelled.width_ne hpixelled.height_ne
          interest
        exact hallows.holds hle.1 hle.2
  | embed | addAlpha | watermark | blur => cases hsides

theorem holds_cutOut (hsides : change.resampled? shape = some sides) (h : limits.Holds sides) :
    ∀ canvas ∈ change.cutOut shape, limits.Holds canvas := by
  intro canvas hcanvas
  cases change with
  | thumbnail width height interest sizing =>
    cases interest with
    | all => cases hcanvas
    | centre =>
      cases sizing with
      | force => cases hcanvas
      | both =>
        cases hsides
        obtain rfl := List.mem_singleton.mp hcanvas
        exact h.mono (Raster.inside_snd_le _ _ _) (Raster.inside_snd_le _ _ _)
  | resize | resizeAxes | embed | addAlpha | watermark | blur => cases hcanvas

theorem mem_canvases (hsides : change.resampled? shape = some sides) {canvas : UInt32 × UInt32} :
    canvas ∈ change.canvases shape ↔
      canvas ∈ Resample.canvases shape sides.1 sides.2 ∨ canvas ∈ change.cutOut shape := by
  rw [canvases, hsides, List.mem_append]

/-! ### The one that can be too large -/

/-- What the canvases of a change that resamples come to. -/
structure Canvases (change : Edit σ) (limits : Limits) (shape : Shape)
    (sides : UInt32 × UInt32) : Prop where
  others_hold : ∀ canvas ∈ change.canvases shape,
    canvas ≠ (shape.width, sides.2) → limits.Holds canvas
  /-- Without a second pass there is no canvas before it. -/
  hold_iff : (∀ canvas ∈ change.canvases shape, limits.Holds canvas) ↔
    (shape.width = sides.1 ∧ shape.height = sides.2) ∨ limits.Holds (shape.width, sides.2)
  hold_of_wider : shape.width.toNat ≤ sides.1.toNat →
    ∀ canvas ∈ change.canvases shape, limits.Holds canvas
  hold_of_lower : sides.2.toNat ≤ shape.height.toNat →
    ∀ canvas ∈ change.canvases shape, limits.Holds canvas

theorem canvases_of_holds (hpixelled : shape.Pixelled)
    (hsource : limits.Holds (shape.width, shape.height))
    (hsides : change.resampled? shape = some sides) (h : limits.Holds sides) :
    change.Canvases limits shape sides := by
  have hothers : ∀ canvas ∈ change.canvases shape,
      canvas = (shape.width, sides.2) ∨ limits.Holds canvas := by
    intro canvas hcanvas
    rcases (mem_canvases hsides).mp hcanvas with hcanvas | hcanvas
    · rcases Resample.mem_canvases hcanvas with rfl | rfl
      · exact .inr h
      · exact .inl rfl
    · exact .inr (holds_cutOut hsides h canvas hcanvas)
  have hall (hworking : limits.Holds (shape.width, sides.2)) :
      ∀ canvas ∈ change.canvases shape, limits.Holds canvas := by
    intro canvas hcanvas
    rcases hothers canvas hcanvas with rfl | hcanvas
    · exact hworking
    · exact hcanvas
  have hwider (hle : shape.width.toNat ≤ sides.1.toNat) :
      ∀ canvas ∈ change.canvases shape, limits.Holds canvas :=
    hall (h.mono hle (Nat.le_refl _))
  constructor
  · intro canvas hcanvas hother
    exact (hothers canvas hcanvas).resolve_left hother
  · constructor
    · intro hevery
      by_cases hsame : shape.width = sides.1 ∧ shape.height = sides.2
      · exact .inl hsame
      · refine .inr (hevery _ ((mem_canvases hsides).mpr (.inl ?_)))
        rw [Resample.canvases_of_other hpixelled.isEmpty_eq hsame]
        exact List.mem_cons_self
    · rintro (⟨hwidth, -⟩ | hworking)
      · exact hwider (Nat.le_of_eq (congrArg UInt32.toNat hwidth))
      · exact hall hworking
  · exact hwider
  · intro hlower
    exact hall (hsource.mono (Nat.le_refl _) hlower)

end Edit

/-- All canvases of a change that has been made on a picture within the limit keep to the limit,
but for the one between the passes: it does not when the picture has become narrower and too tall
for its old width. -/
theorem Photo.canvases_hold [LawfulScale σ] {limits : Limits} {change : Edit σ}
    {photo changed : Photo} {sides : UInt32 × UInt32} (hpixelled : photo.picture.shape.Pixelled)
    (hsource : limits.Holds (photo.picture.width, photo.picture.height))
    (hsides : change.resampled? photo.picture.shape = some sides)
    (h : photo.edit limits change = .ok changed) :
    change.Canvases limits photo.picture.shape sides := by
  have hholds := Edit.holds_resampled hpixelled (made_of_edit h).fits hsides
  exact Edit.canvases_of_holds hpixelled hsource hsides hholds

end

def Limits.fourPixels : Limits := { maxOutputPixels := 4 }

namespace Photo

/-- Four pixels in a row. -/
def row : Photo :=
  ⟨⟨.whole .grey .eight, Raster.uniform 4 1 (Vector.replicate 1 (128 : UInt8))⟩, .png⟩

def standUp : Edit Float := .thumbnail 1 4 .all .force

theorem edit_standUp : row.edit .fourPixels standUp
    = .ok { row with picture := row.picture.thumbnailed Float 1 4 .all .force } :=
  edit_thumbnail_of_check ⟨by decide, by decide⟩ (by decide)

theorem canvases_hold_of_row : standUp.Canvases .fourPixels row.picture.shape (1, 4) :=
  canvases_hold ⟨by decide, by decide⟩ (by decide : 4 * 1 ≤ 4) rfl edit_standUp

/-- The row is stood up. Four pixels are allowed, and four it has before and after, but it comes of
a second pass over a canvas that has sixteen. -/
theorem row_between_exceeds :
    Limits.fourPixels.Holds (row.picture.width, row.picture.height) ∧
      (∃ changed, row.edit .fourPixels standUp = .ok changed ∧
        changed.picture = ⟨row.picture.colour,
          (Resample.rows .lanczos3 1 (Resample.between .lanczos3 4 row.picture.raster)).map
            fun pixel => pixel.map Sample.ofSingle⟩) ∧
      (∃ canvas ∈ standUp.canvases row.picture.shape, ¬ Limits.fourPixels.Holds canvas) ∧
      (Resample.between .lanczos3 4 row.picture.raster).pixels.size = 16 := by
  have hfirst : (4, 4) ∈ standUp.canvases row.picture.shape := List.mem_cons_self
  have hpasses : Resample.raster .lanczos3 1 4 row.picture.raster = _ :=
    Resample.raster_eq_rows (by decide) (by decide) .lanczos3
  refine ⟨(by decide : 4 * 1 ≤ 4), ⟨_, edit_standUp, congrArg (Picture.mk _) hpasses⟩, ?_, ?_⟩
  · exact ⟨(4, 4), hfirst, (by decide : ¬ 4 * 4 ≤ 4)⟩
  · exact Resample.size_between .lanczos3 4 row.picture.raster

end Photo

/-! ### One factor for both sides -/

/-- A factor of one or more makes no side shorter, a smaller one makes none longer. -/
theorem Scale.le_side_or_side_le (r : Rat) {m n : UInt32} (hm : m ≠ 0) (hn : n ≠ 0) :
    m ≤ side r m ∨ side r n ≤ n := by
  rcases le_total 1 r with hr | hr
  · rw [← ratio_self hm] at hr
    exact .inl (le_side hm hr)
  · rw [← ratio_self hn] at hr
    exact .inr (side_le_target hn hn hr)

namespace Edit

def scalesEvenly {σ : Type} : Edit σ → Bool
  | .resize .. => true
  | .thumbnail _ _ _ .both => true
  | _ => false

variable {change : Edit Rat} {shape : Shape} {sides : UInt32 × UInt32}
  (heven : change.scalesEvenly = true) (hpixelled : shape.Pixelled)
  (hsides : change.resampled? shape = some sides)
include heven hpixelled hsides

theorem wider_or_lower : shape.width ≤ sides.1 ∨ sides.2 ≤ shape.height := by
  cases change with
  | resize scale kernel =>
    cases hsides
    exact Scale.le_side_or_side_le scale hpixelled.width_ne hpixelled.height_ne
  | thumbnail width height interest sizing =>
    cases sizing with
    | force => cases heven
    | both =>
      rcases resampled?_both hsides with rfl | ⟨rfl, -, rfl⟩
      · rw [Thumbnail.sides_eq hpixelled.width_ne hpixelled.height_ne]
        exact Scale.le_side_or_side_le _ hpixelled.width_ne hpixelled.height_ne
      · exact .inl (UInt32.le_refl _)
  | resizeAxes | embed | addAlpha | watermark | blur => cases heven

/-- A change by one exact factor makes no canvas that is too large. -/
theorem Canvases.hold_of_even {limits : Limits} (h : change.Canvases limits shape sides) :
    ∀ canvas ∈ change.canvases shape, limits.Holds canvas := by
  rcases wider_or_lower heven hpixelled hsides with hwider | hlower
  · exact h.hold_of_wider (UInt32.le_iff_toNat_le.mp hwider)
  · exact h.hold_of_lower (UInt32.le_iff_toNat_le.mp hlower)

end Edit

end ImagePipeline
