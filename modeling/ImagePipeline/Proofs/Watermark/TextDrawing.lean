import ImagePipeline.Proofs.Picture.Painting
import Mathlib.Tactic.Ring

/-!
# Text as it is drawn

Every bit that is set in a glyph makes a block of specks, one pixel each. A text is painted with the
specks of its glyphs (`Watermark.foldl_fill_eq_painted`). They stay on the canvas, and none of the
numbers that lead to the place of a speck is too large for the machine word it is computed in
(`Speck.Inks.unwrapped`). A place has a speck exactly if the bit is set that its column and row
point to (`Watermark.exists_speck_iff`), so the drawing is the scaled bitmap of the text and nothing
else (`Watermark.drawText_exactly`).
-/

namespace ImagePipeline

/-! ### Capped sums -/

namespace Number

theorem capped_add_capped (a b : Nat) : capped (capped a + capped b) = capped (a + b) := by
  unfold capped
  omega

theorem capped_eq_of_le {n : Nat} (h : capped n ≤ maxUInt32) : capped n = n := by
  unfold capped maxUInt64 maxUInt32 at *
  omega

theorem toNat_ofNat_of_le {n : Nat} (h : n ≤ maxUInt32) : (UInt32.ofNat n).toNat = n :=
  UInt32.toNat_ofNat_of_lt' (Nat.lt_of_le_of_lt h (by decide))

end Number

/-! ### Bitmaps -/

namespace Glyph

theorem mem_ink_iff {c : Char} {column row : Nat} :
    (column, row) ∈ ink c ↔ column < cell ∧ row < cell ∧ isSet c column row = true := by
  simp only [ink, places, List.mem_filter, List.mem_flatMap, List.mem_map, List.mem_range,
    Prod.mk.injEq]
  constructor
  · rintro ⟨⟨_, hrow, _, hcolumn, rfl, rfl⟩, hset⟩
    exact ⟨hcolumn, hrow, hset⟩
  · rintro ⟨hcolumn, hrow, hset⟩
    exact ⟨⟨row, hrow, column, hcolumn, rfl, rfl⟩, hset⟩

theorem pitch_eq (scale : Nat) : cell * scale + scale = 9 * scale := by
  unfold cell
  omega

end Glyph

namespace Watermark

/-! ### Specks -/

/-- A pixel of ink: the number of a glyph in the text, a bit of its bitmap, and a place in the block
that is made of this bit. -/
structure Speck where
  index : Nat
  column : Nat
  row : Nat
  dx : Nat
  dy : Nat

namespace Speck

variable (speck : Speck)

/-- The column of the canvas: glyphs stand a bitmap and a bit apart. -/
def x (scale : Nat) : Nat :=
  speck.index * (Glyph.cell * scale + scale) + speck.column * scale + speck.dx

def y (scale : Nat) : Nat := speck.row * scale + speck.dy

def dab (scale : Nat) (colour : Rgba) : Raster.Dab Rgba := ⟨speck.x scale, speck.y scale, colour⟩

/-- The column as it is computed, with the height of the canvas for the size of a glyph: in 64 bits
up to the corner of the block, which is then cut down to 32 bits. -/
def wordX (cell scale : UInt32) : UInt32 :=
  let origin := UInt64.ofNat speck.index * (cell.toUInt64 + scale.toUInt64)
  (origin + UInt64.ofNat speck.column * scale.toUInt64).toUInt32 + UInt32.ofNat speck.dx

def wordY (scale : UInt32) : UInt32 := UInt32.ofNat speck.row * scale + UInt32.ofNat speck.dy

/-- No number on the way from the origin of a glyph to a speck is too large for the word that it is
held in. -/
structure Unwrapped (scale : Nat) : Prop where
  offset_le : speck.column * scale ≤ Number.maxUInt64
  /-- The sum fits in 64 bits, and nothing is lost when it is cut down to 32. -/
  corner_le : speck.index * (Glyph.cell * scale + scale) + speck.column * scale ≤ Number.maxUInt32
  x_le : speck.x scale ≤ Number.maxUInt32
  top_le : speck.row * scale ≤ Number.maxUInt32
  y_le : speck.y scale ≤ Number.maxUInt32

/-- The speck belongs to a bit that is set in the text. -/
structure Inks (text : List Char) (scale : Nat) : Prop where
  set : ∃ c, text[speck.index]? = some c ∧ Glyph.isSet c speck.column speck.row = true
  column_lt : speck.column < Glyph.cell
  row_lt : speck.row < Glyph.cell
  dx_lt : speck.dx < scale
  dy_lt : speck.dy < scale

end Speck

/-- The specks of a text in the order in which they are drawn. -/
def specks (text : List Char) (scale : Nat) : List Speck :=
  text.zipIdx.flatMap fun (c, index) => (Glyph.ink c).flatMap fun (column, row) =>
    (List.range scale).flatMap fun dy => (List.range scale).map fun dx =>
      ⟨index, column, row, dx, dy⟩

/-- Whether the bitmap of a text, scaled up, is set at a place; what lies behind the last glyph is
not. -/
def inked (text : List Char) (scale x y : Nat) : Bool :=
  match text[x / (9 * scale)]? with
  | some c =>
    decide (x % (9 * scale) < 8 * scale)
      && Glyph.isSet c (x % (9 * scale) / scale) (y / scale)
  | none => false

variable {text : List Char} {scale : Nat} {speck : Speck}

theorem mem_specks_iff : speck ∈ specks text scale ↔ speck.Inks text scale := by
  obtain ⟨index, column, row, dx, dy⟩ := speck
  simp only [specks, List.mem_flatMap, List.mem_map, List.mem_range, Prod.exists,
    List.mk_mem_zipIdx_iff_getElem?, Glyph.mem_ink_iff, Speck.mk.injEq]
  constructor
  · rintro ⟨c, _, hchar, _, _, ⟨hcolumn, hrow, hset⟩, _, hdy, _, hdx, rfl, rfl, rfl, rfl, rfl⟩
    exact ⟨⟨c, hchar, hset⟩, hcolumn, hrow, hdx, hdy⟩
  · rintro ⟨⟨c, hchar, hset⟩, hcolumn, hrow, hdx, hdy⟩
    exact ⟨c, index, hchar, column, row, ⟨hcolumn, hrow, hset⟩, dy, hdy, dx, hdx, rfl, rfl, rfl,
      rfl, rfl⟩

theorem foldl_fill_eq_painted (text : List Char) (scale : Nat) (colour : Rgba)
    (canvas : Raster Rgba) :
    (inkBlocks text scale).foldl (fun r (x, y) => r.fill colour x y scale scale) canvas
      = canvas.painted (fun _ p => p) ((specks text scale).map fun s => s.dab scale colour) := by
  simp only [inkBlocks, specks, Raster.fill_eq_painted, Raster.painted, Raster.block,
    List.foldl_flatMap, List.foldl_map, List.map_flatMap, List.map_map]
  rfl

/-! ### From places to bits -/

namespace Speck.Inks

variable (hinks : speck.Inks text scale)
include hinks

theorem scale_pos : 0 < scale := Nat.lt_of_le_of_lt (Nat.zero_le _) hinks.dx_lt

theorem index_lt : speck.index < text.length := by
  obtain ⟨c, hchar, -⟩ := hinks.set
  exact (List.getElem?_eq_some_iff.mp hchar).1

theorem offset_lt : speck.column * scale + speck.dx < Glyph.cell * scale :=
  Nat.mul_comm scale Glyph.cell ▸ Raster.index_lt hinks.dx_lt hinks.column_lt

theorem y_lt : speck.y scale < Glyph.cell * scale :=
  Nat.mul_comm scale Glyph.cell ▸ Raster.index_lt hinks.dy_lt hinks.row_lt

/-- The bit of a speck is found again from its place: glyphs do not overlap, nor do their bits. -/
theorem place : speck.x scale / (9 * scale) = speck.index ∧
    speck.x scale % (9 * scale) = speck.column * scale + speck.dx ∧
    (speck.column * scale + speck.dx) / scale = speck.column ∧
    speck.y scale / scale = speck.row := by
  have hscale := hinks.scale_pos
  have hoffset := hinks.offset_lt
  unfold Glyph.cell at hoffset
  -- of the nine bits from one glyph to the next the speck lies in the first eight
  have hglyph : speck.x scale / (9 * scale) = speck.index ∧
      speck.x scale % (9 * scale) = speck.column * scale + speck.dx := by
    rw [Nat.div_mod_unique (by omega), Speck.x, Glyph.pitch_eq, Nat.mul_comm speck.index]
    omega
  have hcolumn : _ / scale = speck.column ∧ _ :=
    (Nat.div_mod_unique hscale).mpr ⟨by rw [Nat.mul_comm, Nat.add_comm], hinks.dx_lt⟩
  have hrow : _ / scale = speck.row ∧ _ :=
    (Nat.div_mod_unique hscale).mpr ⟨by rw [Nat.mul_comm, Nat.add_comm], hinks.dy_lt⟩
  exact ⟨hglyph.1, hglyph.2, hcolumn.1, hrow.1⟩

end Speck.Inks

theorem exists_speck_iff {x y : Nat} (hy : y < Glyph.cell * scale) :
    (∃ speck ∈ specks text scale, speck.x scale = x ∧ speck.y scale = y)
      ↔ inked text scale x y = true := by
  constructor
  · rintro ⟨speck, hmem, rfl, rfl⟩
    have hinks := mem_specks_iff.mp hmem
    obtain ⟨hindex, hoffset, hcolumn, hrow⟩ := hinks.place
    obtain ⟨c, hchar, hset⟩ := hinks.set
    simp only [inked, hindex, hoffset, hcolumn, hrow, hchar, hset, Bool.and_true,
      decide_eq_true_eq]
    exact hinks.offset_lt
  · intro hinked
    have hscale : 0 < scale := Nat.pos_of_mul_pos_left (Nat.lt_of_le_of_lt (Nat.zero_le y) hy)
    unfold inked at hinked
    split at hinked
    · rename_i c hchar
      simp only [Bool.and_eq_true, decide_eq_true_eq] at hinked
      obtain ⟨hcolumn, hset⟩ := hinked
      -- quotients and remainders of the place are what the speck is made of
      let speck : Speck := ⟨x / (9 * scale), x % (9 * scale) / scale, y / scale,
        x % (9 * scale) % scale, y % scale⟩
      have hinks : speck.Inks text scale :=
        ⟨⟨c, hchar, hset⟩, Nat.div_lt_of_lt_mul (Nat.mul_comm 8 scale ▸ hcolumn),
          Nat.div_lt_of_lt_mul (Nat.mul_comm Glyph.cell scale ▸ hy), Nat.mod_lt _ hscale,
          Nat.mod_lt _ hscale⟩
      refine ⟨speck, mem_specks_iff.mpr hinks, ?_, Nat.div_add_mod' y scale⟩
      rw [Speck.x, Glyph.pitch_eq, Nat.add_assoc, Nat.div_add_mod', Nat.div_add_mod']
    · cases hinked

/-! ### Places on the canvas -/

theorem textExtent_eq_capped (glyphs scale : Nat) :
    textExtent glyphs scale
      = (Number.capped (max glyphs 1 * (8 * scale) + (max glyphs 1 - 1) * scale), 8 * scale) := by
  simp only [textExtent, Number.capped_add_capped, Glyph.cell]

theorem textExtent_of_fits {glyphs : Nat} (hfits : (textExtent glyphs scale).1 ≤ Number.maxUInt32) :
    (textExtent glyphs scale).1 = (max glyphs 1 - 1) * (9 * scale) + 8 * scale := by
  rw [textExtent_eq_capped] at hfits ⊢
  obtain ⟨gaps, hgaps⟩ := Nat.exists_eq_add_of_le' (Nat.le_max_right glyphs 1)
  rw [hgaps, Nat.add_sub_cancel] at hfits ⊢
  calc Number.capped ((gaps + 1) * (8 * scale) + gaps * scale)
      = (gaps + 1) * (8 * scale) + gaps * scale := Number.capped_eq_of_le hfits
    _ = gaps * (9 * scale) + 8 * scale := by ring

theorem origin_add_le {glyphs index : Nat} (hindex : index < glyphs)
    (hfits : (textExtent glyphs scale).1 ≤ Number.maxUInt32) :
    index * (Glyph.cell * scale + scale) + Glyph.cell * scale ≤ (textExtent glyphs scale).1 := by
  rw [textExtent_of_fits hfits, Glyph.pitch_eq]
  exact Nat.add_le_add_right (Nat.mul_le_mul_right _ (by omega)) _

namespace Speck.Inks

variable (hinks : speck.Inks text scale)
  (hwidth : (textExtent text.length scale).1 ≤ Number.maxUInt32)
include hinks hwidth

theorem x_lt : speck.x scale < (textExtent text.length scale).1 := by
  have hright := origin_add_le hinks.index_lt hwidth
  have hoffset := hinks.offset_lt
  unfold Speck.x
  omega

variable (hheight : (textExtent text.length scale).2 ≤ Number.maxUInt32)
include hheight

theorem unwrapped : speck.Unwrapped scale := by
  have hx := hinks.x_lt hwidth
  have hy : speck.y scale < (textExtent text.length scale).2 := hinks.y_lt
  unfold Speck.x at hx
  unfold Speck.y at hy
  refine ⟨?_, by omega, by unfold Speck.x; omega, by omega, by unfold Speck.y; omega⟩
  calc speck.column * scale ≤ Number.maxUInt32 := by omega
    _ ≤ Number.maxUInt64 := by decide

theorem toNat_wordX :
    (speck.wordX (UInt32.ofNat (Glyph.cell * scale)) (UInt32.ofNat scale)).toNat
      = speck.x scale := by
  have hcell : Glyph.cell * scale < UInt32.size := Nat.lt_of_le_of_lt hheight (by decide)
  have hscale : scale < UInt32.size :=
    Nat.lt_of_le_of_lt (Nat.le_mul_of_pos_left scale (by decide)) hcell
  -- every word is that of the exact number, so that only the last one has to fit
  rw [Speck.wordX, UInt32.toUInt64_ofNat' hcell, UInt32.toUInt64_ofNat' hscale]
  simp only [← UInt64.ofNat_add, ← UInt64.ofNat_mul, UInt64.toUInt32_ofNat', ← UInt32.ofNat_add]
  exact Number.toNat_ofNat_of_le (hinks.unwrapped hwidth hheight).x_le

theorem toNat_wordY : (speck.wordY (UInt32.ofNat scale)).toNat = speck.y scale := by
  rw [Speck.wordY, ← UInt32.ofNat_mul, ← UInt32.ofNat_add]
  exact Number.toNat_ofNat_of_le (hinks.unwrapped hwidth hheight).y_le

end Speck.Inks

/-! ### The drawing -/

theorem drawText_eq_none_iff (text : String) (scale : Nat) (colour : Rgba) :
    drawText text scale colour = none
      ↔ Number.maxUInt32 < (textExtent text.length scale).1
        ∨ Number.maxUInt32 < (textExtent text.length scale).2 := by
  simp only [drawText, String.length_toList]
  split
  · rename_i hfits
    simp only [reduceCtorEq, false_iff]
    omega
  · rename_i hfits
    simp only [true_iff]
    omega

theorem drawText_eq_some_iff {text : String} {scale : Nat} {colour : Rgba} {canvas : Raster Rgba} :
    drawText text scale colour = some canvas
      ↔ ((textExtent text.length scale).1 ≤ Number.maxUInt32
          ∧ (textExtent text.length scale).2 ≤ Number.maxUInt32)
        ∧ (Raster.uniform (UInt32.ofNat (textExtent text.length scale).1)
            (UInt32.ofNat (textExtent text.length scale).2) Rgba.transparent).painted (fun _ p => p)
          ((specks text.toList scale).map fun s => s.dab scale colour) = canvas := by
  simp only [drawText, String.length_toList, foldl_fill_eq_painted, Option.ite_none_right_eq_some,
    Option.some.injEq]

theorem get?_painted_specks (text : List Char) (scale : Nat) (colour : Rgba) {width height : UInt32}
    (hheight : height.toNat = Glyph.cell * scale) {x y : Nat} (hx : x < width.toNat)
    (hy : y < height.toNat) :
    ((Raster.uniform width height Rgba.transparent).painted (fun _ p => p)
        ((specks text scale).map fun s => s.dab scale colour)).get? x y
      = some (if inked text scale x y = true then colour else Rgba.transparent) := by
  have hspeck : (∃ speck ∈ specks text scale, speck.x scale = x ∧ speck.y scale = y)
      ↔ inked text scale x y = true := exists_speck_iff (hheight ▸ hy)
  split
  · rename_i hinked
    obtain ⟨speck, hmem, hplace⟩ := hspeck.mpr hinked
    refine Raster.get?_painted_of_covered ?_ ⟨_, List.mem_map_of_mem hmem, hplace⟩ hx hy
    intro dab hdab
    obtain ⟨_, -, rfl⟩ := List.mem_map.mp hdab
    rfl
  · rename_i hblank
    rw [Raster.get?_painted_of_missed, Raster.get?_uniform, if_pos ⟨hx, hy⟩]
    intro dab hdab hplace
    obtain ⟨speck, hmem, rfl⟩ := List.mem_map.mp hdab
    exact hblank (hspeck.mp ⟨speck, hmem, hplace⟩)

/-- A canvas has exactly the size of a text and shows it: the specks of the text are put on a
transparent canvas one after the other, all of them inside and at places that are computed without
a number too large for its word; a pixel is reached exactly if the text is inked there, and has the
colour then, while all others are transparent. -/
structure Draws (text : String) (scale : Nat) (colour : Rgba) (canvas : Raster Rgba) : Prop where
  width_eq : canvas.width.toNat = (textExtent text.length scale).1
  height_eq : canvas.height.toNat = (textExtent text.length scale).2
  painted : canvas = (Raster.uniform canvas.width canvas.height Rgba.transparent).painted
    (fun _ p => p) ((specks text.toList scale).map fun s => s.dab scale colour)
  inside : ∀ speck ∈ specks text.toList scale,
    speck.x scale < canvas.width.toNat ∧ speck.y scale < canvas.height.toNat
  step_le : Glyph.cell * scale + scale ≤ Number.maxUInt64
  /-- The origins of the glyphs, whether or not they have ink. -/
  origins_le : ∀ index < text.length,
    index * (Glyph.cell * scale + scale) ≤ Number.maxUInt64
  unwrapped : ∀ speck ∈ specks text.toList scale, speck.Unwrapped scale
  in_words : ∀ speck ∈ specks text.toList scale,
    (speck.wordX canvas.height (UInt32.ofNat scale)).toNat = speck.x scale ∧
      (speck.wordY (UInt32.ofNat scale)).toNat = speck.y scale
  reached_iff : ∀ x y, y < canvas.height.toNat →
    ((∃ speck ∈ specks text.toList scale, speck.x scale = x ∧ speck.y scale = y)
      ↔ inked text.toList scale x y = true)
  get?_eq : ∀ x y, x < canvas.width.toNat → y < canvas.height.toNat →
    canvas.get? x y
      = some (if inked text.toList scale x y = true then colour else Rgba.transparent)
  coloured_iff : colour ≠ Rgba.transparent → ∀ x y, x < canvas.width.toNat →
    y < canvas.height.toNat →
    (canvas.get? x y = some colour ↔ inked text.toList scale x y = true)

section

variable {text : String} {scale : Nat} {colour : Rgba} {canvas : Raster Rgba}
  (hdrawn : drawText text scale colour = some canvas)
include hdrawn

theorem fits_of_drawText : (textExtent text.length scale).1 ≤ Number.maxUInt32 ∧
    (textExtent text.length scale).2 ≤ Number.maxUInt32 :=
  (drawText_eq_some_iff.mp hdrawn).1

theorem sides_of_drawText : canvas.width = UInt32.ofNat (textExtent text.length scale).1 ∧
    canvas.height = UInt32.ofNat (textExtent text.length scale).2 := by
  obtain ⟨-, rfl⟩ := drawText_eq_some_iff.mp hdrawn
  exact Raster.sameSides_painted _ _ _

theorem toNat_sides_of_drawText : canvas.width.toNat = (textExtent text.length scale).1 ∧
    canvas.height.toNat = (textExtent text.length scale).2 := by
  obtain ⟨hwide, hhigh⟩ := fits_of_drawText hdrawn
  obtain ⟨hwidth, hheight⟩ := sides_of_drawText hdrawn
  rw [hwidth, hheight]
  exact ⟨Number.toNat_ofNat_of_le hwide, Number.toNat_ofNat_of_le hhigh⟩

theorem painted_of_drawText : canvas
    = (Raster.uniform canvas.width canvas.height Rgba.transparent).painted (fun _ p => p)
        ((specks text.toList scale).map fun s => s.dab scale colour) := by
  obtain ⟨-, hcanvas⟩ := drawText_eq_some_iff.mp hdrawn
  obtain ⟨hwidth, hheight⟩ := sides_of_drawText hdrawn
  rw [hwidth, hheight]
  exact hcanvas.symm

theorem get?_of_drawText {x y : Nat} (hx : x < canvas.width.toNat) (hy : y < canvas.height.toNat) :
    canvas.get? x y
      = some (if inked text.toList scale x y = true then colour else Rgba.transparent) := by
  rw [painted_of_drawText hdrawn]
  exact get?_painted_specks text.toList scale colour (toNat_sides_of_drawText hdrawn).2 hx hy

theorem draws_of_drawText : Draws text scale colour canvas := by
  obtain ⟨hwidth, hheight⟩ := toNat_sides_of_drawText hdrawn
  obtain ⟨hwide, hhigh⟩ := fits_of_drawText hdrawn
  have hinks {speck : Speck} (hmem : speck ∈ specks text.toList scale) :
      speck.Inks text.toList scale := mem_specks_iff.mp hmem
  rw [← String.length_toList] at hwide hhigh
  exact {
    width_eq := hwidth
    height_eq := hheight
    painted := painted_of_drawText hdrawn
    inside := by
      intro speck hmem
      rw [hwidth, hheight, ← String.length_toList]
      exact ⟨(hinks hmem).x_lt hwide, (hinks hmem).y_lt⟩
    step_le := by
      have hcell : Glyph.cell * scale ≤ Number.maxUInt32 := hhigh
      unfold Glyph.cell Number.maxUInt32 Number.maxUInt64 at *
      omega
    origins_le := by
      intro index hindex
      have hright := origin_add_le (String.length_toList ▸ hindex) hwide
      unfold Number.maxUInt32 Number.maxUInt64 at *
      omega
    unwrapped := fun speck hmem => (hinks hmem).unwrapped hwide hhigh
    in_words := by
      intro speck hmem
      rw [(sides_of_drawText hdrawn).2]
      exact ⟨(hinks hmem).toNat_wordX hwide hhigh, (hinks hmem).toNat_wordY hwide hhigh⟩
    reached_iff := fun x y hy => exists_speck_iff (Nat.lt_of_lt_of_eq hy hheight)
    get?_eq := fun x y hx hy => get?_of_drawText hdrawn hx hy
    coloured_iff := by
      intro hcolour x y hx hy
      rw [get?_of_drawText hdrawn hx hy, Option.some.injEq, ite_eq_left_iff]
      exact ⟨fun h => by_contra fun hblank => hcolour (h hblank).symm,
        fun hinked hblank => (hblank hinked).elim⟩ }

end

/-- A text is drawn exactly, if it is drawn at all: it is not if a side of its extent is too large
for 32 bits, and only then. -/
theorem drawText_exactly (text : String) (scale : Nat) (colour : Rgba) :
    (drawText text scale colour = none
        ↔ Number.maxUInt32 < (textExtent text.length scale).1
          ∨ Number.maxUInt32 < (textExtent text.length scale).2) ∧
      ∀ canvas, drawText text scale colour = some canvas → Draws text scale colour canvas :=
  ⟨drawText_eq_none_iff text scale colour, fun _ hdrawn => draws_of_drawText hdrawn⟩

/-- Two characters with blocks of two by two pixels: the second one begins nine bits to the right of
the first, and the space between them stays transparent. -/
theorem drawText_exactly_of_two_characters :
    textExtent "A!".length 2 = (34, 16) ∧
      ∃ canvas, drawText "A!" 2 ⟨255, 0, 0, 128⟩ = some canvas ∧
        Draws "A!" 2 ⟨255, 0, 0, 128⟩ canvas ∧
        canvas.get? 24 0 = some ⟨255, 0, 0, 128⟩ ∧ canvas.get? 17 0 = some Rgba.transparent := by
  have hextent : textExtent "A!".length 2 = (34, 16) := by decide
  obtain ⟨hnone, hdraws⟩ := drawText_exactly "A!" 2 ⟨255, 0, 0, 128⟩
  rw [hextent] at hnone
  obtain ⟨canvas, hdrawn⟩ := Option.ne_none_iff_exists'.mp
    (fun h => absurd (hnone.mp h) (by decide))
  have hcanvas := hdraws canvas hdrawn
  have hwidth := hcanvas.width_eq
  have hheight := hcanvas.height_eq
  rw [hextent] at hwidth hheight
  refine ⟨hextent, canvas, hdrawn, hcanvas, ?_, ?_⟩
  · rw [hcanvas.get?_eq 24 0 (by omega) (by omega), if_pos (by decide +kernel)]
  · rw [hcanvas.get?_eq 17 0 (by omega) (by omega), if_neg (by decide)]

end Watermark

end ImagePipeline
