import ImagePipeline.Proofs.Geometry.Covering
import ImagePipeline.Proofs.Geometry.Scaling

/-!
# The bound of a thumbnail

With an exact factor the bound of a thumbnail is never below the sides that the image is scaled to,
since the products are rounded up in the one and to nearest in the other. The larger factor makes no
side shorter than the box and one just as long, so that the box can be cut out of the middle
(`Thumbnail.coversBox`); the smaller one makes no side longer (`Thumbnail.fitsBox`).
-/

namespace ImagePipeline.Thumbnail

/-- What a side becomes when it is scaled: its product with the factor, rounded to nearest and at
least 1, however large it is. -/
def nearestSide (factor : Rat) (side : UInt32) : Nat :=
  max 1 (Scale.roundRat (Scale.product factor side))

def nearestSides (interest : Interest) (shape : Shape) (width height : UInt32) : Nat × Nat :=
  let factor := factor interest shape width height
  (nearestSide factor shape.width, nearestSide factor shape.height)

/-- Before a box is cut out of it an image is scaled to sides that the bound allows for, none of
which is shorter than the box and one of which is just as long; as long as they are sides that an
image can have, they are the sides it is given. The box lies inside, and is what is left. -/
structure CoversBox (shape : Shape) (width height : UInt32) : Prop where
  bounded : (nearestSides .centre shape width height).1
      ≤ (bound Rat shape width height .centre .both).1 ∧
    (nearestSides .centre shape width height).2 ≤ (bound Rat shape width height .centre .both).2
  covers : width.toNat ≤ (nearestSides .centre shape width height).1 ∧
    height.toNat ≤ (nearestSides .centre shape width height).2
  reaches : width.toNat = (nearestSides .centre shape width height).1 ∨
    height.toNat = (nearestSides .centre shape width height).2
  scaled_width : (nearestSides .centre shape width height).1 ≤ Number.maxUInt32 →
    (sides Rat shape width height .centre).1.toNat = (nearestSides .centre shape width height).1
  scaled_height : (nearestSides .centre shape width height).2 ≤ Number.maxUInt32 →
    (sides Rat shape width height .centre).2.toNat = (nearestSides .centre shape width height).2
  columns_le : (corner (sides Rat shape width height .centre) width height).1.toNat + width.toNat
    ≤ (sides Rat shape width height .centre).1.toNat
  rows_le : (corner (sides Rat shape width height .centre) width height).2.toNat + height.toNat
    ≤ (sides Rat shape width height .centre).2.toNat
  cut_out : reshape Rat shape width height .centre .both
    = { shape with width := width, height := height }

/-- Fitted into a box, an image is scaled to sides that the bound allows for, none of which is
longer than the box and one of which is just as long. -/
structure FitsBox (shape : Shape) (width height : UInt32) : Prop where
  bounded : (nearestSides .all shape width height).1 ≤ (bound Rat shape width height .all .both).1 ∧
    (nearestSides .all shape width height).2 ≤ (bound Rat shape width height .all .both).2
  fits : (nearestSides .all shape width height).1 ≤ width.toNat ∧
    (nearestSides .all shape width height).2 ≤ height.toNat
  reaches : (nearestSides .all shape width height).1 = width.toNat ∨
    (nearestSides .all shape width height).2 = height.toNat
  made_width : (reshape Rat shape width height .all .both).width.toNat
    = (nearestSides .all shape width height).1
  made_height : (reshape Rat shape width height .all .both).height.toNat
    = (nearestSides .all shape width height).2

/-! ### One side -/

section

variable {box side : UInt32} {factor : Rat}

theorem nearestSide_le_cover (factor : Rat) (side : UInt32) :
    nearestSide factor side ≤ Scale.cover factor side :=
  max_le_max_left 1 (Scale.roundRat_le_ceil _)

theorem nearestSide_ratio (hbox : box ≠ 0) (hside : side ≠ 0) :
    nearestSide (Scale.ratio box side) side = box.toNat := by
  rw [nearestSide, Scale.product_ratio hside, Scale.roundRat_natCast]
  exact Nat.max_eq_right (Number.pos_of_ne_zero hbox)

theorem nearestSide_mono {smaller larger : Rat} (h : smaller ≤ larger) (side : UInt32) :
    nearestSide smaller side ≤ nearestSide larger side :=
  max_le_max_left 1 (Scale.roundRat_mono (mul_le_mul_of_nonneg_left h (Nat.cast_nonneg _)))

theorem toNat_side_eq (h : nearestSide factor side ≤ Number.maxUInt32) :
    (Scale.side factor side).toNat = nearestSide factor side := by
  rw [Scale.toNat_side]
  unfold nearestSide at h ⊢
  omega

end

/-! ### Both sides -/

section

variable {shape : Shape} (hpixelled : shape.Pixelled) {width height : UInt32}
  (hbox : width ≠ 0 ∧ height ≠ 0)

theorem nearestSides_le_bound (interest : Interest) :
    (nearestSides interest shape width height).1
        ≤ (bound Rat shape width height interest .both).1 ∧
      (nearestSides interest shape width height).2
        ≤ (bound Rat shape width height interest .both).2 :=
  ⟨nearestSide_le_cover _ _, nearestSide_le_cover _ _⟩

include hpixelled

/-- An image that is fitted into a box is scaled by neither ratio more. -/
theorem factor_le_ratio (width height : UInt32) :
    factor .all shape width height ≤ Scale.ratio width shape.width ∧
      factor .all shape width height ≤ Scale.ratio height shape.height := by
  simp only [factor, ratio, hpixelled.width_ne, hpixelled.height_ne, if_false]
  exact ⟨Scale.smaller_le_left _ _, Scale.smaller_le_right _ _⟩

theorem toNat_sides (width height : UInt32) (interest : Interest) :
    ((nearestSides interest shape width height).1 ≤ Number.maxUInt32 →
        (sides Rat shape width height interest).1.toNat
          = (nearestSides interest shape width height).1) ∧
      ((nearestSides interest shape width height).2 ≤ Number.maxUInt32 →
        (sides Rat shape width height interest).2.toNat
          = (nearestSides interest shape width height).2) := by
  rw [sides_eq hpixelled.width_ne hpixelled.height_ne]
  exact ⟨toNat_side_eq, toNat_side_eq⟩

/-- An image that is its own box is left as it is, and its sides are those it would be scaled to. -/
theorem nearestSides_self (interest : Interest) :
    nearestSides interest shape shape.width shape.height
      = (shape.width.toNat, shape.height.toNat) := by
  have hwidth := nearestSide_ratio hpixelled.width_ne hpixelled.width_ne
  have hheight := nearestSide_ratio hpixelled.height_ne hpixelled.height_ne
  rw [Scale.ratio_self hpixelled.width_ne] at hwidth
  rw [Scale.ratio_self hpixelled.height_ne] at hheight
  rw [nearestSides, factor_self hpixelled.width_ne hpixelled.height_ne, hwidth, hheight]

include hbox

/-- The factor is one of the two ratios, and brings that side to the side of the box. -/
theorem nearestSides_reach (interest : Interest) :
    (nearestSides interest shape width height).1 = width.toNat ∨
      (nearestSides interest shape width height).2 = height.toNat := by
  unfold nearestSides
  rcases factor_cases hpixelled.width_ne hpixelled.height_ne width height interest with
    hfactor | hfactor
  · rw [hfactor]
    exact .inl (nearestSide_ratio hbox.1 hpixelled.width_ne)
  · rw [hfactor]
    exact .inr (nearestSide_ratio hbox.2 hpixelled.height_ne)

theorem coversBox : CoversBox shape width height := by
  obtain ⟨hacross, hdown⟩ := ratio_le_factor hpixelled.width_ne hpixelled.height_ne width height
  have hcovers : width.toNat ≤ (nearestSides .centre shape width height).1 ∧
      height.toNat ≤ (nearestSides .centre shape width height).2 := by
    rw [← nearestSide_ratio hbox.1 hpixelled.width_ne,
      ← nearestSide_ratio hbox.2 hpixelled.height_ne]
    exact ⟨nearestSide_mono hacross shape.width, nearestSide_mono hdown shape.height⟩
  obtain ⟨hwidth, hheight⟩ := toNat_sides hpixelled width height .centre
  obtain ⟨hcolumns, hrows⟩ := corner_add_le (σ := Rat) hpixelled width height
  exact ⟨nearestSides_le_bound .centre, hcovers,
    (nearestSides_reach hpixelled hbox .centre).imp Eq.symm Eq.symm, hwidth, hheight, hcolumns,
    hrows, reshape_centre hpixelled width height⟩

theorem fitsBox : FitsBox shape width height := by
  have hfits : (nearestSides .all shape width height).1 ≤ width.toNat ∧
      (nearestSides .all shape width height).2 ≤ height.toNat := by
    obtain ⟨hacross, hdown⟩ := factor_le_ratio hpixelled width height
    rw [← nearestSide_ratio hbox.1 hpixelled.width_ne,
      ← nearestSide_ratio hbox.2 hpixelled.height_ne]
    exact ⟨nearestSide_mono hacross shape.width, nearestSide_mono hdown shape.height⟩
  have hmade : (reshape Rat shape width height .all .both).width.toNat
        = (nearestSides .all shape width height).1 ∧
      (reshape Rat shape width height .all .both).height.toNat
        = (nearestSides .all shape width height).2 := by
    unfold reshape
    dsimp only
    split
    · rename_i hsame
      rw [← hsame.1, ← hsame.2, nearestSides_self hpixelled]
      exact ⟨rfl, rfl⟩
    · obtain ⟨hwidth, hheight⟩ := toNat_sides hpixelled width height .all
      exact ⟨hwidth (hfits.1.trans (Number.toNat_le_maxUInt32 width)),
        hheight (hfits.2.trans (Number.toNat_le_maxUInt32 height))⟩
  exact ⟨nearestSides_le_bound .all, hfits, nearestSides_reach hpixelled hbox .all, hmade.1,
    hmade.2⟩

end

end ImagePipeline.Thumbnail
