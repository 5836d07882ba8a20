import ImagePipeline.Proofs.Picture.Sides
import Mathlib.Data.List.Nodup

/-!
# Painting pixel by pixel

A raster is painted by dabs, one pixel each. What stands at a place afterwards is what stood there,
with the layers put on this place laid over it one after the other (`Raster.get?_painted`). Laying a
tile over a canvas is painting, with one layer on each pixel that lies under the tile and none
elsewhere (`Raster.stamp_eq_painted`, `Raster.layers_dabs`).
-/

namespace ImagePipeline.Raster

variable {α β γ : Type}

/-! ### Looking at pixels -/

theorem get?_eq_none {r : Raster α} {x y : Nat} (h : ¬ (x < r.width.toNat ∧ y < r.height.toNat)) :
    r.get? x y = none := if_neg h

theorem get?_eq_getElem {r : Raster α} {x y : Nat} (hx : x < r.width.toNat)
    (hy : y < r.height.toNat) :
    ∃ h : y * r.width.toNat + x < r.pixels.size,
      r.get? x y = some (r.pixels[y * r.width.toNat + x]) := by
  have hindex : y * r.width.toNat + x < r.pixels.size := by
    rw [r.size_eq]
    exact index_lt hx hy
  exact ⟨hindex, by rw [get?, if_pos ⟨hx, hy⟩, Array.getElem?_eq_getElem hindex]⟩

theorem exists_get? {r : Raster α} {x y : Nat} (hx : x < r.width.toNat) (hy : y < r.height.toNat) :
    ∃ a, r.get? x y = some a :=
  ⟨_, (get?_eq_getElem hx hy).2⟩

theorem lt_of_get? {r : Raster α} {x y : Nat} {a : α} (h : r.get? x y = some a) :
    x < r.width.toNat ∧ y < r.height.toNat := by
  unfold get? at h
  split at h
  · assumption
  · cases h

theorem ext_get? {r s : Raster α} (hsides : SameSides r s) (h : ∀ x y, r.get? x y = s.get? x y) :
    r = s := by
  obtain ⟨width, height, pixels, hsize⟩ := r
  obtain ⟨width', height', pixels', hsize'⟩ := s
  obtain ⟨rfl, rfl⟩ := hsides
  suffices hpixels : pixels = pixels' by
    subst hpixels
    rfl
  refine Array.ext (hsize.trans hsize'.symm) ?_
  intro i hi hi'
  -- the pixel with this number stands in this column and row
  have harea : i < width.toNat * height.toNat := hsize ▸ hi
  have hwidth : 0 < width.toNat :=
    Nat.pos_of_mul_pos_right (Nat.lt_of_le_of_lt (Nat.zero_le i) harea)
  have hx : i % width.toNat < width.toNat := Nat.mod_lt _ hwidth
  have hy : i / width.toNat < height.toNat := Nat.div_lt_of_lt_mul harea
  have hplace : i / width.toNat * width.toNat + i % width.toNat = i :=
    Nat.div_add_mod' i width.toNat
  have hsame := h (i % width.toNat) (i / width.toNat)
  simpa only [get?, hx, hy, and_self, if_true, hplace, Array.getElem?_eq_getElem hi,
    Array.getElem?_eq_getElem hi', Option.some.injEq] using hsame

theorem get?_uniform (width height : UInt32) (a : α) (x y : Nat) :
    (uniform width height a).get? x y
      = if x < width.toNat ∧ y < height.toNat then some a else none := by
  by_cases hin : x < width.toNat ∧ y < height.toNat
  · have hindex : y * width.toNat + x < width.toNat * height.toNat := index_lt hin.1 hin.2
    rw [if_pos hin]
    simp [get?, uniform, hin, hindex]
  · rw [if_neg hin]
    exact get?_eq_none hin

theorem get?_map (f : α → β) (r : Raster α) (x y : Nat) :
    (r.map f).get? x y = (r.get? x y).map f := by
  by_cases hin : x < r.width.toNat ∧ y < r.height.toNat
  · simp [get?, map, hin]
  · rw [get?_eq_none hin]
    exact get?_eq_none hin

theorem map_map (g : β → γ) (f : α → β) (r : Raster α) : (r.map f).map g = r.map (g ∘ f) := by
  simp only [map, Array.map_map]

theorem map_id (r : Raster α) : r.map id = r := by
  simp only [map, Array.map_id_fun, id]

theorem at?_map (f : α → β) (r : Raster α) (x y : Int) :
    (r.map f).at? x y = (r.at? x y).map f := by
  unfold at?
  split
  · exact get?_map f r x.toNat y.toNat
  · rfl

/-- Different places of one row, or of different rows, have different numbers. -/
theorem index_inj {x y x' y' w : Nat} (hx : x < w) (hx' : x' < w)
    (h : y * w + x = y' * w + x') : x = x' ∧ y = y' := by
  have hw : 0 < w := Nat.lt_of_le_of_lt (Nat.zero_le x) hx
  have hrow := congrArg (· / w) h
  simp only [Nat.mul_comm _ w, Nat.mul_add_div hw, Nat.div_eq_of_lt hx, Nat.div_eq_of_lt hx',
    Nat.add_zero] at hrow
  subst hrow
  exact ⟨Nat.add_left_cancel h, rfl⟩

theorem at?_natCast (r : Raster α) (x y : Nat) : r.at? x y = r.get? x y :=
  if_pos ⟨Int.natCast_nonneg x, Int.natCast_nonneg y⟩

theorem get?_modify (f : α → α) (r : Raster α) (x y i j : Nat) :
    (r.modify f x y).get? i j
      = if x = i ∧ y = j then (r.get? i j).map f else r.get? i j := by
  obtain ⟨width, height, pixels, hsize⟩ := r
  by_cases hplace : x < width.toNat ∧ y < height.toNat
  · simp only [modify, hplace, and_self, if_true]
    by_cases hin : i < width.toNat ∧ j < height.toNat
    · have hnumber : y * width.toNat + x = j * width.toNat + i ↔ x = i ∧ y = j := by
        constructor
        · exact index_inj hplace.1 hin.1
        · rintro ⟨rfl, rfl⟩
          rfl
      simp only [get?, hin, and_self, if_true, Array.getElem?_modify, hnumber]
    · simp [get?, hin]
  · have hother : ¬ (x = i ∧ y = j ∧ i < width.toNat ∧ j < height.toNat) := by
      rintro ⟨rfl, rfl, hin⟩
      exact hplace hin
    simp only [modify, hplace, if_false]
    split
    · rename_i hsame
      rw [get?_eq_none (fun hin => hother ⟨hsame.1, hsame.2, hin⟩)]
      rfl
    · rfl

/-! ### Dabs -/

/-- A dab of paint on the place of one pixel. -/
structure Dab (β : Type) where
  x : Nat
  y : Nat
  paint : β

def painted (f : α → β → α) (canvas : Raster α) (dabs : List (Dab β)) : Raster α :=
  dabs.foldl (fun r dab => r.modify (f · dab.paint) dab.x dab.y) canvas

/-- What is put on a place, in this order. -/
def layers (dabs : List (Dab β)) (x y : Nat) : List β :=
  (dabs.filter fun dab => dab.x = x ∧ dab.y = y).map Dab.paint

theorem layers_cons (dab : Dab β) (dabs : List (Dab β)) (x y : Nat) :
    layers (dab :: dabs) x y
      = if dab.x = x ∧ dab.y = y then dab.paint :: layers dabs x y else layers dabs x y := by
  unfold layers
  by_cases h : dab.x = x ∧ dab.y = y
  · rw [List.filter_cons_of_pos (by simpa using h), if_pos h, List.map_cons]
  · rw [List.filter_cons_of_neg (by simpa using h), if_neg h]

theorem layers_flatMap {ι : Type} (items : List ι) (f : ι → List (Dab β)) (x y : Nat) :
    layers (items.flatMap f) x y = items.flatMap fun item => layers (f item) x y := by
  simp only [layers, List.filter_flatMap, List.map_flatMap]

theorem layers_toList (paint : Option β) (x' y' x y : Nat) :
    layers (paint.map fun p => (⟨x', y', p⟩ : Dab β)).toList x y
      = if x' = x ∧ y' = y then paint.toList else [] := by
  cases paint with
  | none => exact (ite_self []).symm
  | some p => exact layers_cons ⟨x', y', p⟩ [] x y

theorem painted_append (f : α → β → α) (canvas : Raster α) (dabs more : List (Dab β)) :
    canvas.painted f (dabs ++ more) = (canvas.painted f dabs).painted f more :=
  List.foldl_append

theorem sameSides_painted (f : α → β → α) (canvas : Raster α) (dabs : List (Dab β)) :
    SameSides (canvas.painted f dabs) canvas :=
  sameSides_foldl canvas fun r dab => sameSides_modify _ r dab.x dab.y

/-- A pixel keeps what it was under the layers that are put on it, and a pixel elsewhere is as it
was. -/
theorem get?_painted (f : α → β → α) (canvas : Raster α) (dabs : List (Dab β)) (x y : Nat) :
    (canvas.painted f dabs).get? x y
      = (canvas.get? x y).map fun a => (layers dabs x y).foldl f a := by
  induction dabs generalizing canvas with
  | nil => exact Option.map_id'.symm
  | cons dab dabs ih =>
    show ((canvas.modify (f · dab.paint) dab.x dab.y).painted f dabs).get? x y = _
    rw [ih, get?_modify, layers_cons]
    by_cases h : dab.x = x ∧ dab.y = y
    · simp only [h, and_self, if_true, Option.map_map]
      rfl
    · simp only [h, if_false]

/-! ### One paint -/

theorem layers_eq_nil_iff {dabs : List (Dab β)} {x y : Nat} :
    layers dabs x y = [] ↔ ∀ dab ∈ dabs, ¬ (dab.x = x ∧ dab.y = y) := by
  rw [layers, List.map_eq_nil_iff, List.filter_eq_nil_iff]
  simp only [decide_eq_true_eq]

theorem get?_painted_of_missed (f : α → β → α) (canvas : Raster α) {dabs : List (Dab β)} {x y : Nat}
    (hmissed : ∀ dab ∈ dabs, ¬ (dab.x = x ∧ dab.y = y)) :
    (canvas.painted f dabs).get? x y = canvas.get? x y := by
  rw [get?_painted, layers_eq_nil_iff.mpr hmissed]
  exact Option.map_id'

/-- Of layers that cover, all with the same paint, the last one is seen. -/
theorem get?_painted_of_covered {canvas : Raster α} {dabs : List (Dab α)} {a : α} {x y : Nat}
    (hpaint : ∀ dab ∈ dabs, dab.paint = a) (hcovered : ∃ dab ∈ dabs, dab.x = x ∧ dab.y = y)
    (hx : x < canvas.width.toNat) (hy : y < canvas.height.toNat) :
    (canvas.painted (fun _ p => p) dabs).get? x y = some a := by
  have hsome : layers dabs x y ≠ [] := by
    obtain ⟨dab, hdab, hplace⟩ := hcovered
    exact fun hnone => layers_eq_nil_iff.mp hnone dab hdab hplace
  obtain ⟨before, hlast⟩ := exists_get? hx hy
  rw [get?_painted, hlast, Option.map_some, ← List.dropLast_append_getLast hsome,
    List.foldl_append, List.foldl_cons, List.foldl_nil]
  obtain ⟨dab, hdab, hseen⟩ := List.mem_map.mp (List.getLast_mem hsome)
  rw [← hseen, hpaint dab (List.mem_of_mem_filter hdab)]

/-- The dabs of a rectangle of one paint, row by row. -/
def block (a : β) (x y width height : Nat) : List (Dab β) :=
  (List.range height).flatMap fun dy => (List.range width).map fun dx => ⟨x + dx, y + dy, a⟩

theorem fill_eq_painted (a : α) (r : Raster α) (x y width height : Nat) :
    r.fill a x y width height = r.painted (fun _ p => p) (block a x y width height) := by
  simp only [fill, painted, block, List.range'_eq_map_range, List.foldl_flatMap, List.foldl_map]

/-! ### Tiles -/

theorem mem_span {start stop k : Int} : k ∈ span start stop ↔ start ≤ k ∧ k < stop := by
  simp only [span, List.mem_map, List.mem_range, Int.ofNat_eq_natCast]
  constructor
  · rintro ⟨n, hn, rfl⟩
    omega
  · rintro ⟨hstart, hstop⟩
    exact ⟨(k - start).toNat, by omega, by omega⟩

theorem nodup_span (start stop : Int) : (span start stop).Nodup := by
  refine List.Nodup.map ?_ List.nodup_range
  intro m n h
  simp only [Int.ofNat_eq_natCast] at h
  omega

/-- A list without repetitions in which only one item counts. -/
theorem flatMap_only {ι γ : Type} [DecidableEq ι] {items : List ι} (hnodup : items.Nodup) (item : ι)
    (f : ι → List γ) (hother : ∀ other ∈ items, other ≠ item → f other = []) :
    items.flatMap f = if item ∈ items then f item else [] := by
  induction items with
  | nil => rfl
  | cons head tail ih =>
    obtain ⟨hnew, hnodup⟩ := List.nodup_cons.mp hnodup
    obtain ⟨hhead, htail⟩ := List.forall_mem_cons.mp hother
    rw [List.flatMap_cons, ih hnodup htail]
    by_cases h : item = head
    · subst h
      rw [if_neg hnew, if_pos List.mem_cons_self, List.append_nil]
    · simp only [hhead (Ne.symm h), List.nil_append, List.mem_cons, h, false_or]

/-- The dabs by which a tile is laid over a canvas with the given sides, row by row. -/
def dabs (width height : Nat) (tile : Raster β) (x y : Int) : List (Dab β) :=
  (span (max 0 y) (min (height : Int) (y + tile.height.toNat))).flatMap fun j =>
    (span (max 0 x) (min (width : Int) (x + tile.width.toNat))).flatMap fun i =>
      ((tile.at? (i - x) (j - y)).map fun paint => ⟨i.toNat, j.toNat, paint⟩).toList

theorem stamp_eq_painted (f : α → β → α) (canvas : Raster α) (tile : Raster β) (x y : Int) :
    canvas.stamp f tile x y
      = canvas.painted f (dabs canvas.width.toNat canvas.height.toNat tile x y) := by
  simp only [stamp, painted, dabs, List.foldl_flatMap]
  congr 1
  funext r j
  congr 1
  funext r i
  cases tile.at? (i - x) (j - y) <;> rfl

theorem lt_of_at? {r : Raster α} {x y : Int} {a : α} (h : r.at? x y = some a) :
    0 ≤ x ∧ x < r.width.toNat ∧ 0 ≤ y ∧ y < r.height.toNat := by
  unfold at? at h
  split at h
  · have hin := lt_of_get? h
    omega
  · cases h

/-- A tile puts its pixel on each place that lies under it, and nothing on the others. -/
theorem layers_dabs {width height : Nat} (tile : Raster β) (x y : Int) {i j : Nat} (hi : i < width)
    (hj : j < height) :
    layers (dabs width height tile x y) i j = (tile.at? (i - x) (j - y)).toList := by
  simp only [dabs, layers_flatMap, layers_toList]
  -- of the rows and columns only those of the place count
  rw [flatMap_only (nodup_span _ _) (j : Int), flatMap_only (nodup_span _ _) (i : Int)]
  · cases hpaint : tile.at? (i - x) (j - y) with
    | none => simp
    | some paint =>
      have hunder := lt_of_at? hpaint
      rw [if_pos (mem_span.mpr (by omega)), if_pos (mem_span.mpr (by omega)),
        if_pos ⟨Int.toNat_natCast i, Int.toNat_natCast j⟩]
  · intro column hcolumn hother
    have hlow := (mem_span.mp hcolumn).1
    rw [if_neg (by omega)]
  · intro row hrow hother
    have hlow := (mem_span.mp hrow).1
    rw [List.flatMap_eq_nil_iff]
    intro column _
    rw [if_neg (by omega)]

theorem get?_stamp (f : α → β → α) (canvas : Raster α) (tile : Raster β) (x y : Int) (i j : Nat) :
    (canvas.stamp f tile x y).get? i j
      = (canvas.get? i j).map fun a => (tile.at? (i - x) (j - y)).elim a (f a) := by
  rw [stamp_eq_painted, get?_painted]
  cases hget : canvas.get? i j with
  | none => rfl
  | some a =>
    obtain ⟨hi, hj⟩ := lt_of_get? hget
    rw [Option.map_some, Option.map_some, layers_dabs tile x y hi hj]
    cases tile.at? (i - x) (j - y) <;> rfl

end ImagePipeline.Raster
