import ImagePipeline.Proofs.Picture.Painting

/-!
# A tile over a canvas

A tile that is repeated puts one layer on every pixel of the canvas, whatever the sides of the two
are: the tile pixel whose place is the canvas place less a whole number of tiles. A tile that is not
repeated puts one layer on each pixel under it (`Watermark.composite_touches_once`).
-/

namespace ImagePipeline.Watermark

variable {canvas tile : Raster Rgba}

/-- The dabs by which a tile is blended onto a canvas. -/
def dabs (canvas tile : Raster Rgba) (replicate : Bool) : List (Raster.Dab Rgba) :=
  (if replicate then corners canvas tile else [(0, 0)]).flatMap fun corner =>
    Raster.dabs canvas.width.toNat canvas.height.toNat tile corner.1 corner.2

theorem foldl_stamp_eq_painted (canvas tile : Raster Rgba) (places : List (Nat × Nat)) :
    places.foldl (fun canvas (x, y) => canvas.stamp blend tile x y) canvas
      = canvas.painted blend (places.flatMap fun place =>
          Raster.dabs canvas.width.toNat canvas.height.toNat tile place.1 place.2) := by
  induction places generalizing canvas with
  | nil => rfl
  | cons place places ih =>
    have hsides := Raster.sameSides_stamp blend canvas tile place.1 place.2
    rw [List.foldl_cons, List.flatMap_cons, Raster.painted_append, ← Raster.stamp_eq_painted,
      ih (canvas.stamp blend tile place.1 place.2), hsides.1, hsides.2]

theorem composite_eq_painted (canvas tile : Raster Rgba) (replicate : Bool) :
    composite canvas tile replicate = canvas.painted blend (dabs canvas tile replicate) := by
  cases replicate with
  | true => exact foldl_stamp_eq_painted canvas tile (corners canvas tile)
  | false => exact foldl_stamp_eq_painted canvas tile [(0, 0)]

/-! ### Where the tiles lie -/

theorem mem_multiples {step bound n : Nat} (hstep : 1 ≤ step) :
    n ∈ multiples step bound ↔ step ∣ n ∧ n < bound := by
  have hcount (k : Nat) : k < (bound + step - 1) / step ↔ k * step < bound := by
    rw [Nat.lt_iff_add_one_le, Nat.le_div_iff_mul_le hstep, Nat.succ_mul]
    omega
  simp only [multiples, List.mem_map, List.mem_range, hcount]
  constructor
  · rintro ⟨k, hk, rfl⟩
    exact ⟨Nat.dvd_mul_left step k, hk⟩
  · rintro ⟨⟨k, rfl⟩, hk⟩
    rw [Nat.mul_comm] at hk ⊢
    exact ⟨k, hk, rfl⟩

theorem nodup_multiples {step : Nat} (hstep : 1 ≤ step) (bound : Nat) :
    (multiples step bound).Nodup := by
  refine List.Nodup.map ?_ List.nodup_range
  intro k k' h
  exact Nat.eq_of_mul_eq_mul_right hstep h

/-- Of the multiples of a step only the last one up to a place lies less than a step before it. -/
theorem not_under_of_ne {step n m : Nat} (hdvd : step ∣ m) (hne : m ≠ n / step * step) :
    ¬ ((0 : Int) ≤ n - m ∧ (n : Int) - m < step) := by
  rintro ⟨hlow, hhigh⟩
  obtain ⟨k, rfl⟩ := hdvd
  apply hne
  have hk : n / step = k := by
    apply Nat.div_eq_of_lt_le
    · rw [Nat.mul_comm]
      omega
    · rw [Nat.succ_mul, Nat.mul_comm]
      omega
  rw [hk, Nat.mul_comm]

theorem at?_of_other_column {x column : Nat} {row : Int} (hdvd : tile.width.toNat ∣ column)
    (hne : column ≠ x / tile.width.toNat * tile.width.toNat) :
    tile.at? ((x : Int) - column) row = none := by
  rw [Option.eq_none_iff_forall_ne_some]
  intro t ht
  have hunder := Raster.lt_of_at? ht
  exact not_under_of_ne hdvd hne ⟨hunder.1, hunder.2.1⟩

theorem at?_of_other_row {y row : Nat} {column : Int} (hdvd : tile.height.toNat ∣ row)
    (hne : row ≠ y / tile.height.toNat * tile.height.toNat) :
    tile.at? column ((y : Int) - row) = none := by
  rw [Option.eq_none_iff_forall_ne_some]
  intro t ht
  have hunder := Raster.lt_of_at? ht
  exact not_under_of_ne hdvd hne ⟨hunder.2.2.1, hunder.2.2.2⟩

theorem sub_last_multiple (n step : Nat) :
    (n : Int) - (n / step * step : Nat) = (n % step : Nat) := by
  have hsplit := Nat.div_add_mod' n step
  omega

theorem last_multiple_mem {n step bound : Nat} (hstep : 1 ≤ step) (hn : n < bound) :
    n / step * step ∈ multiples step bound :=
  (mem_multiples hstep).mpr
    ⟨Nat.dvd_mul_left _ _, Nat.lt_of_le_of_lt (Nat.div_mul_le_self n step) hn⟩

theorem layers_replicated {x y : Nat} (hwidth : 1 ≤ tile.width.toNat)
    (hheight : 1 ≤ tile.height.toNat) (hx : x < canvas.width.toNat) (hy : y < canvas.height.toNat) :
    Raster.layers (dabs canvas tile true) x y
      = (tile.get? (x % tile.width.toNat) (y % tile.height.toNat)).toList := by
  simp only [dabs, if_true, Raster.layers_flatMap, corners, List.flatMap_assoc, List.flatMap_map,
    Raster.layers_dabs tile _ _ hx hy, Nat.max_eq_left hwidth, Nat.max_eq_left hheight]
  -- of all corners only that of the tile over the place counts
  rw [Raster.flatMap_only (nodup_multiples hheight _) (y / tile.height.toNat * tile.height.toNat),
    if_pos (last_multiple_mem hheight hy),
    Raster.flatMap_only (nodup_multiples hwidth _) (x / tile.width.toNat * tile.width.toNat),
    if_pos (last_multiple_mem hwidth hx)]
  · rw [sub_last_multiple, sub_last_multiple, Raster.at?_natCast]
  · intro column hcolumn hne
    rw [at?_of_other_column ((mem_multiples hwidth).mp hcolumn).1 hne, Option.toList_none]
  · intro row hrow hne
    rw [List.flatMap_eq_nil_iff]
    intro column _
    rw [at?_of_other_row ((mem_multiples hheight).mp hrow).1 hne, Option.toList_none]

theorem layers_single {x y : Nat} (hx : x < canvas.width.toNat) (hy : y < canvas.height.toNat) :
    Raster.layers (dabs canvas tile false) x y = (tile.get? x y).toList := by
  simp only [dabs, Bool.false_eq_true, if_false, List.flatMap_singleton,
    Raster.layers_dabs tile _ _ hx hy, Int.natCast_zero, Int.sub_zero, Raster.at?_natCast]

/-! ### One layer -/

theorem blend_of_transparent {above : Rgba} (h : above.alpha = 0) (below : Rgba) :
    blend below above = below := if_pos h

theorem get?_composite {replicate : Bool} {x y : Nat} {c : Rgba} (h : canvas.get? x y = some c) :
    (composite canvas tile replicate).get? x y
      = some ((Raster.layers (dabs canvas tile replicate) x y).foldl blend c) := by
  rw [composite_eq_painted, Raster.get?_painted, h, Option.map_some]

theorem get?_composite_of_layer {replicate : Bool} {x y : Nat} {c t : Rgba}
    (h : canvas.get? x y = some c) (hlayer : Raster.layers (dabs canvas tile replicate) x y = [t]) :
    (composite canvas tile replicate).get? x y = some (blend c t) := by
  rw [get?_composite h, hlayer]
  rfl

/-- Transparent layers change nothing. -/
theorem foldl_blend_of_transparent {layers : List Rgba} (h : ∀ t ∈ layers, t.alpha = 0) (c : Rgba) :
    layers.foldl blend c = c := by
  induction layers with
  | nil => rfl
  | cons t layers ih =>
    obtain ⟨ht, hlayers⟩ := List.forall_mem_cons.mp h
    rw [List.foldl_cons, blend_of_transparent ht, ih hlayers]

theorem exists_of_mem_layers {replicate : Bool} {x y : Nat} {t : Rgba}
    (hwidth : 1 ≤ tile.width.toNat) (hheight : 1 ≤ tile.height.toNat)
    (hx : x < canvas.width.toNat) (hy : y < canvas.height.toNat)
    (h : t ∈ Raster.layers (dabs canvas tile replicate) x y) : ∃ i j, tile.get? i j = some t := by
  cases replicate with
  | true =>
    rw [layers_replicated hwidth hheight hx hy, Option.mem_toList] at h
    exact ⟨_, _, h⟩
  | false =>
    rw [layers_single hx hy, Option.mem_toList] at h
    exact ⟨_, _, h⟩

theorem composite_of_transparent (replicate : Bool) (hwidth : 1 ≤ tile.width.toNat)
    (hheight : 1 ≤ tile.height.toNat)
    (htransparent : ∀ x y t, tile.get? x y = some t → t.alpha = 0) :
    composite canvas tile replicate = canvas := by
  refine Raster.ext_get? (sameSides_composite canvas tile replicate) ?_
  intro x y
  cases hc : canvas.get? x y with
  | none =>
    rw [composite_eq_painted, Raster.get?_painted, hc]
    rfl
  | some c =>
    obtain ⟨hx, hy⟩ := Raster.lt_of_get? hc
    rw [get?_composite hc, foldl_blend_of_transparent]
    intro t ht
    obtain ⟨i, j, hget⟩ := exists_of_mem_layers hwidth hheight hx hy ht
    exact htransparent i j t hget

/-- A tile with sides of at least 1, laid over any canvas by dabs of single pixels. Repeated, it
puts one layer on each canvas pixel, the tile pixel at the remainders of its place. Not repeated, it
puts one layer, the tile pixel at the same place, on each canvas pixel under it, and the others stay
as they are. A transparent tile changes nothing. -/
theorem composite_touches_once (canvas tile : Raster Rgba) (hwidth : 1 ≤ tile.width.toNat)
    (hheight : 1 ≤ tile.height.toNat) :
    (∀ replicate, Raster.SameSides (composite canvas tile replicate) canvas ∧
      composite canvas tile replicate = canvas.painted blend (dabs canvas tile replicate)) ∧
    (∀ x y c, canvas.get? x y = some c →
      ∃ t, tile.get? (x % tile.width.toNat) (y % tile.height.toNat) = some t ∧
        Raster.layers (dabs canvas tile true) x y = [t] ∧
        (composite canvas tile true).get? x y = some (blend c t)) ∧
    (∀ x y c, canvas.get? x y = some c → x < tile.width.toNat → y < tile.height.toNat →
      ∃ t, tile.get? x y = some t ∧ Raster.layers (dabs canvas tile false) x y = [t] ∧
        (composite canvas tile false).get? x y = some (blend c t)) ∧
    (∀ x y c, canvas.get? x y = some c → ¬ (x < tile.width.toNat ∧ y < tile.height.toNat) →
      Raster.layers (dabs canvas tile false) x y = [] ∧
        (composite canvas tile false).get? x y = some c) ∧
    ∀ replicate, (∀ x y t, tile.get? x y = some t → t.alpha = 0) →
      composite canvas tile replicate = canvas := by
  refine ⟨fun replicate => ⟨sameSides_composite canvas tile replicate,
    composite_eq_painted canvas tile replicate⟩, ?_, ?_, ?_, ?_⟩
  · intro x y c hc
    obtain ⟨hx, hy⟩ := Raster.lt_of_get? hc
    obtain ⟨t, ht⟩ := Raster.exists_get? (r := tile) (Nat.mod_lt x hwidth) (Nat.mod_lt y hheight)
    have hlayers := layers_replicated hwidth hheight hx hy
    rw [ht, Option.toList_some] at hlayers
    exact ⟨t, ht, hlayers, get?_composite_of_layer hc hlayers⟩
  · intro x y c hc hunder_x hunder_y
    obtain ⟨hx, hy⟩ := Raster.lt_of_get? hc
    obtain ⟨t, ht⟩ := Raster.exists_get? hunder_x hunder_y
    have hlayers : Raster.layers (dabs canvas tile false) x y = _ := layers_single hx hy
    rw [ht, Option.toList_some] at hlayers
    exact ⟨t, ht, hlayers, get?_composite_of_layer hc hlayers⟩
  · intro x y c hc hbeside
    obtain ⟨hx, hy⟩ := Raster.lt_of_get? hc
    have hlayers : Raster.layers (dabs canvas tile false) x y = _ := layers_single hx hy
    rw [Raster.get?_eq_none hbeside, Option.toList_none] at hlayers
    exact ⟨hlayers, by rw [get?_composite hc, hlayers]; rfl⟩
  · intro replicate htransparent
    exact composite_of_transparent replicate hwidth hheight htransparent

/-- Three white pixels in a row. -/
def whiteRow : Raster Rgba := Raster.uniform 3 1 Rgb.white.solid

/-- An opaque red pixel and a blue one that shines through. -/
def redAndBlue : Raster Rgba :=
  Raster.generate 2 1 fun x _ => if x = 0 then ⟨255, 0, 0, 255⟩ else ⟨0, 0, 255, 128⟩

/-- Two pixels repeated over a row of three: the third one is covered by the first of the tile
again, and stays white when the tile is not repeated. -/
theorem composite_touches_once_of_row :
    (1 ≤ redAndBlue.width.toNat ∧ 1 ≤ redAndBlue.height.toNat) ∧
      Raster.layers (dabs whiteRow redAndBlue true) 2 0 = [⟨255, 0, 0, 255⟩] ∧
      (composite whiteRow redAndBlue true).get? 2 0 = some ⟨255, 0, 0, 255⟩ ∧
      (composite whiteRow redAndBlue false).get? 2 0 = some Rgb.white.solid := by
  have hwidth : 1 ≤ redAndBlue.width.toNat := by decide
  have hheight : 1 ≤ redAndBlue.height.toNat := by decide
  obtain ⟨-, hrepeated, -, hbeside, -⟩ :=
    composite_touches_once whiteRow redAndBlue hwidth hheight
  have hwhite : whiteRow.get? 2 0 = some Rgb.white.solid := by rfl
  obtain ⟨t, ht, hlayers, hget⟩ := hrepeated 2 0 Rgb.white.solid hwhite
  obtain rfl : ⟨255, 0, 0, 255⟩ = t := Option.some.inj ht
  exact ⟨⟨hwidth, hheight⟩, hlayers, hget, (hbeside 2 0 _ hwhite (by decide)).2⟩

end ImagePipeline.Watermark
