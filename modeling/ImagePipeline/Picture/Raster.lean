/-!
# Rasters

A raster is a rectangle of pixels of any kind, row by row. It is looked at through `Raster.get?`,
which says what stands at a column and a row, and `Raster.at?`, which also takes negative places.
The operations are: making every pixel by a rule (`generate`), changing every pixel (`map`),
changing a single one (`modify`), cutting a rectangle out (`crop`), and laying a tile over a
canvas at any place (`stamp`).
-/

namespace ImagePipeline

structure Raster (α : Type) where
  width : UInt32
  height : UInt32
  pixels : Array α
  size_eq : pixels.size = width.toNat * height.toNat

namespace Raster

variable {α β : Type}

def get? (r : Raster α) (x y : Nat) : Option α :=
  if x < r.width.toNat ∧ y < r.height.toNat then r.pixels[y * r.width.toNat + x]? else none

def at? (r : Raster α) (x y : Int) : Option α :=
  if 0 ≤ x ∧ 0 ≤ y then r.get? x.toNat y.toNat else none

def generate (width height : UInt32) (f : Nat → Nat → α) : Raster α where
  width := width
  height := height
  pixels := Array.ofFn fun i : Fin (width.toNat * height.toNat) =>
    f (i.val % width.toNat) (i.val / width.toNat)
  size_eq := by simp

def uniform (width height : UInt32) (a : α) : Raster α where
  width := width
  height := height
  pixels := Array.replicate (width.toNat * height.toNat) a
  size_eq := by simp

def map (f : α → β) (r : Raster α) : Raster β where
  width := r.width
  height := r.height
  pixels := r.pixels.map f
  size_eq := by simp [r.size_eq]

/-- One pixel changed; a place outside changes nothing. -/
def modify (f : α → α) (r : Raster α) (x y : Nat) : Raster α :=
  match r with
  | ⟨width, height, pixels, size_eq⟩ =>
    if x < width.toNat ∧ y < height.toNat then
      ⟨width, height, pixels.modify (y * width.toNat + x) f, by simp [size_eq]⟩
    else ⟨width, height, pixels, size_eq⟩

def fill (a : α) (r : Raster α) (x y width height : Nat) : Raster α :=
  (List.range' y height).foldl
    (fun r j => (List.range' x width).foldl (fun r i => r.modify (fun _ => a) i j) r) r

theorem index_lt {x y w h : Nat} (hx : x < w) (hy : y < h) : y * w + x < w * h := by
  calc y * w + x < y * w + w := by omega
    _ = (y + 1) * w := by rw [Nat.succ_mul]
    _ ≤ h * w := Nat.mul_le_mul_right _ hy
    _ = w * h := Nat.mul_comm _ _

def shorter (a b : UInt32) : UInt32 := if a ≤ b then a else b

theorem shorter_le (a b : UInt32) : shorter a b ≤ b := by
  unfold shorter
  split
  · assumption
  · exact UInt32.le_refl b

/-- The part of a stretch of a side that lies inside; its start is moved inside first. -/
def inside (start length side : UInt32) : UInt32 × UInt32 :=
  let first := shorter start side
  (first, shorter length (side - first))

theorem inside_le (start length side : UInt32) :
    (inside start length side).1.toNat + (inside start length side).2.toNat ≤ side.toNat := by
  have first_le := UInt32.le_iff_toNat_le.1 (shorter_le start side)
  have rest_le := UInt32.le_iff_toNat_le.1 (shorter_le length (side - shorter start side))
  rw [UInt32.toNat_sub_of_le _ _ (shorter_le start side)] at rest_le
  simp only [inside]
  omega

/-- The part of a rectangle that lies inside; the rectangle's corner is moved inside first. -/
def crop (r : Raster α) (x y width height : UInt32) : Raster α :=
  let across := inside x width r.width
  let down := inside y height r.height
  { width := across.2
    height := down.2
    pixels := Array.ofFn fun i : Fin (across.2.toNat * down.2.toNat) =>
      have columns : across.1.toNat + across.2.toNat ≤ r.width.toNat := inside_le x width r.width
      have rows : down.1.toNat + down.2.toNat ≤ r.height.toNat := inside_le y height r.height
      have some_column : 0 < across.2.toNat :=
        Nat.pos_of_mul_pos_right (Nat.lt_of_le_of_lt (Nat.zero_le _) i.isLt)
      have column : i.val % across.2.toNat < across.2.toNat := Nat.mod_lt _ some_column
      have row : i.val / across.2.toNat < down.2.toNat := Nat.div_lt_of_lt_mul i.isLt
      have in_bounds : (down.1.toNat + i.val / across.2.toNat) * r.width.toNat
          + (across.1.toNat + i.val % across.2.toNat) < r.pixels.size := by
        rw [r.size_eq]
        exact index_lt (by omega) (by omega)
      r.pixels[(down.1.toNat + i.val / across.2.toNat) * r.width.toNat
        + (across.1.toNat + i.val % across.2.toNat)]
    size_eq := by simp }

def span (start stop : Int) : List Int :=
  (List.range (stop - start).toNat).map fun k => start + Int.ofNat k

/-- Lays a tile over a canvas with its corner at a place: `f` combines each canvas pixel under the
tile with the tile's pixel. -/
def stamp (f : α → β → α) (canvas : Raster α) (tile : Raster β) (x y : Int) : Raster α :=
  let columns := span (max 0 x) (min (canvas.width.toNat : Int) (x + tile.width.toNat))
  let rows := span (max 0 y) (min (canvas.height.toNat : Int) (y + tile.height.toNat))
  rows.foldl
    (fun canvas j =>
      columns.foldl
        (fun canvas i =>
          match tile.at? (i - x) (j - y) with
          | some t => canvas.modify (f · t) i.toNat j.toNat
          | none => canvas)
        canvas)
    canvas

end Raster

end ImagePipeline
