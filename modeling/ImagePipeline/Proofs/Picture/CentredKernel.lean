import ImagePipeline.Proofs.Picture.BlurKernel

/-!
# Kernels are centred

A kernel has as many taps on one side of its centre as on the other, never reaches beyond the longer
side of the picture, and reads the same from both ends: the weight of a position is made of its
square alone, and all weights are divided by the same total, whatever that is
(`Blur.kernel_centred`).
-/

namespace ImagePipeline.Blur

variable {platform : Platform}

/-! ### Positions -/

theorem reverse_positions (half : Nat) :
    (positions half).reverse = (positions half).map fun x => -x := by
  refine List.ext_getElem ?_ ?_
  · rw [List.length_reverse, List.length_map]
  · intro i hi hi'
    rw [List.length_reverse, length_positions] at hi
    simp only [positions, List.getElem_reverse, List.getElem_map, List.getElem_range,
      List.length_map, List.length_range, Int.ofNat_eq_natCast]
    omega

theorem square_neg (x : Int) : square (-x) = square x := by
  rw [square, Int64.ofInt_neg, Int64.neg_mul, Int64.mul_neg, Int64.neg_neg]
  rfl

theorem square_eq {x : Int} (h : x.natAbs ≤ 3037000499) : (square x).toInt = x * x := by
  rw [toInt_square h]
  exact Int.natAbs_mul_self

/-! ### Taps -/

theorem weight_neg (sigma : Float) (x : Int) :
    weight sigma (-x) platform = weight sigma x platform := by
  rw [weight, square_neg]
  rfl

theorem reverse_weights (sigma : Float) (half : Nat) :
    (weights sigma half platform).reverse = weights sigma half platform := by
  rw [weights, ← List.map_reverse, reverse_positions, List.map_map]
  refine List.map_congr_left ?_
  intro x _
  exact weight_neg sigma x

theorem reverse_taps (sigma : Float) (half : Nat) :
    (taps sigma half platform).reverse = taps sigma half platform := by
  rw [taps_eq, ← List.map_reverse, reverse_weights]

/-- The kernel of a picture whose longer side is at most 3000000000, for any deviation and amplitude
and whatever the platform's functions give: it ends within the longer side, has a tap for each
position from one end to the other, needs no square that wraps around, and is the same read
backwards. -/
theorem kernel_centred {shape : Shape}
    (hsides : max shape.width.toNat shape.height.toNat ≤ 3000000000) (sigma minAmplitude : Float)
    (platform : Platform) :
    let half := halfWidthFor shape sigma minAmplitude platform
    let kernel := taps sigma half platform
    (1 ≤ half ∧ half ≤ max (max shape.width.toNat shape.height.toNat) 1) ∧
      kernel.length = 2 * half + 1 ∧
      (∀ x ∈ positions half, (square x).toInt = x * x) ∧
      kernel.reverse = kernel := by
  intro half kernel
  have hsome : 1 ≤ halfWidth sigma minAmplitude platform := Nat.le_max_right _ 1
  have hcapped : half ≤ max (max shape.width.toNat shape.height.toNat) 1 := Nat.min_le_right _ _
  refine ⟨⟨?_, hcapped⟩, length_taps sigma half platform, ?_, reverse_taps sigma half⟩
  · exact Nat.le_min.mpr ⟨hsome, Nat.le_max_right _ 1⟩
  · intro x hx
    have hnear := mem_positions hx
    exact square_eq (by omega)

/-- The longest side of a picture for which nothing wraps around by this bound. -/
def widest : Shape := ⟨3000000000, 1, false⟩

/-- A deviation of which three times are more than that. -/
theorem kernel_centred_of_widest :
    let kernel := taps 1e12 3000000000
    max widest.width.toNat widest.height.toNat ≤ 3000000000 ∧
      halfWidthFor widest 1e12 (-1) = 3000000000 ∧ kernel.length = 6000000001 ∧
      (square 3000000000).toInt = 9000000000000000000 ∧ kernel.reverse = kernel := by
  have hsides : max widest.width.toNat widest.height.toNat ≤ 3000000000 := by decide
  have hhalf : halfWidthFor widest 1e12 (-1) = 3000000000 := by decide +kernel
  obtain ⟨-, hlength, hsquare, hreverse⟩ := kernel_centred hsides 1e12 (-1) {}
  rw [hhalf] at hlength hsquare hreverse
  have hlast : (3000000000 : Int) ∈ positions 3000000000 :=
    List.mem_map.mpr ⟨6000000000, List.mem_range.mpr (by omega), rfl⟩
  exact ⟨hsides, hhalf, hlength, hsquare 3000000000 hlast, hreverse⟩

end ImagePipeline.Blur
