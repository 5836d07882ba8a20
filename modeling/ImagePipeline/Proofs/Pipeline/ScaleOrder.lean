import ImagePipeline.Proofs.Geometry.DoubleScale
import ImagePipeline.Proofs.Number.Arithmetic
import ImagePipeline.Proofs.Pipeline.WorkingCanvas

/-!
# Resizing by a smaller factor

A smaller factor makes no side longer: what is stored of a product and what is rounded of that both
grow with the factor (`Scale.side_le_of_le`). So whatever the larger factor makes without being
refused, the smaller one makes as well, and no larger (`Photo.resize_of_le`). All this is so as long
as the product with the larger factor is a double. One that is too large for a double makes a side
of one pixel, which passes any limit.
-/

namespace ImagePipeline

open Float.Model (Format)
open Floating

/-! ### Sides -/

theorem Number.toNat_clampSide_mono {m n : Nat} (h : m ≤ n) :
    (clampSide m).toNat ≤ (clampSide n).toNat := by
  rw [toNat_clampSide, toNat_clampSide]
  omega

namespace Scale

variable {s t : Float} {n : UInt32}

theorem exists_of_isPositive (h : isPositive s = true) : ∃ v, v ≠ 0 ∧ Shows s .positive v := by
  change (!s.isNaN && !decide (s ≤ 0)) = true at h
  simp only [Bool.and_eq_true, Bool.not_eq_true', decide_eq_false_iff_not] at h
  exact exists_of_not_nonpos h.1 h.2

/-- The products of a side with two ordered factors are ordered in the same way. -/
theorem exists_products (hn : 0 < n.toNat) (hs : isPositive s = true) (ht : isPositive t = true)
    (hle : s ≤ t) : ∃ v w, v ≤ w ∧ Shows (n.toFloat * s) .positive v ∧
      Shows (n.toFloat * t) .positive w := by
  obtain ⟨a, ha, hshowsA⟩ := exists_of_isPositive hs
  obtain ⟨b, hb, hshowsB⟩ := exists_of_isPositive ht
  have hside : ((n.toNat : ℕ) : ENNReal) ≠ 0 := by exact_mod_cast hn.ne'
  have hab : a ≤ b := (le_iff hshowsA hshowsB).mp hle
  exact ⟨_, _, stored_mono (mul_le_mul_right hab _),
    shows_mul (shows_uint32 n) hshowsA (.inl hside) (.inr ha),
    shows_mul (shows_uint32 n) hshowsB (.inl hside) (.inr hb)⟩

theorem side_le_of_le (hn : 0 < n.toNat) (hs : isPositive s = true) (ht : isPositive t = true)
    (hle : s ≤ t)
    (hfinite : (n.toFloat * s).isFinite = true → (n.toFloat * t).isFinite = true) :
    (side s n).toNat ≤ (side t n).toNat := by
  obtain ⟨v, w, hvw, hsmall, hlarge⟩ := exists_products hn hs ht hle
  rw [side_float, side_float]
  by_cases hsmallFinite : (n.toFloat * s).isFinite = true
  · rw [if_pos hsmallFinite, if_pos (hfinite hsmallFinite)]
    exact Number.toNat_clampSide_mono (nearest_mono hsmall hlarge hvw)
  · rw [if_neg hsmallFinite]
    split
    · exact Number.one_le_clampSide _
    · exact le_rfl

end Scale

/-! ### Resizing -/

namespace Photo

section

variable {σ : Type} [Scale σ] {limits : Limits} {photo : Photo} {factor : σ}

theorem edit_resize_of_fits (kernel : Kernel) (hpositive : Scale.isPositive factor = true)
    (hfits : (Scale.side factor photo.picture.width).toNat
      * (Scale.side factor photo.picture.height).toNat ≤ limits.maxOutputPixels.toNat) :
    ∃ changed, photo.edit limits (.resize factor kernel) = .ok changed := by
  generalize hresized : photo.picture.resized kernel (Scale.side factor photo.picture.width)
    (Scale.side factor photo.picture.height) = resized
  have hattempt : photo.attempt limits (.resize factor kernel)
      = (.ok (), { photo with picture := resized }) := by
    change (PhotoWork.scale limits factor factor kernel).run.run photo = _
    unfold PhotoWork.scale
    rw [hpositive]
    refine (PhotoWork.run_check_bind limits photo "resize" _ _ fun _ => PhotoWork.assign
      (photo.picture.resized kernel (Scale.side factor photo.picture.width)
        (Scale.side factor photo.picture.height))).trans ?_
    rw [Limits.check_ok hfits "resize", hresized]
    rfl
  exact ⟨_, by rw [edit, hattempt]⟩

theorem edit_resize_of_too_large (kernel : Kernel) (hpositive : Scale.isPositive factor = true)
    (hlarge : limits.maxOutputPixels.toNat < (Scale.side factor photo.picture.width).toNat
      * (Scale.side factor photo.picture.height).toNat) :
    ∃ d, photo.edit limits (.resize factor kernel) = .error (.tooLarge d) := by
  have hcases := photo.attempt_cases limits (.resize factor kernel)
  unfold edit
  generalize photo.attempt limits (.resize factor kernel) = outcome at hcases ⊢
  cases hcases with
  | senseless hinadmissible => exact absurd hpositive hinadmissible
  | oversized _ => exact ⟨_, rfl⟩
  | made _ hfits _ => exact absurd (hfits _ rfl).pixels_le (Nat.not_le.mpr hlarge)

end

/-- A picture that one factor resizes is resized by every smaller one as well, and neither side of
the result is longer, unless the larger factor makes a product that is too large for a double where
the smaller one does not. -/
theorem resize_of_le {limits : Limits} {photo larger : Photo} {s t : Float}
    {kernel kernel' : Kernel} (hwidth : 0 < photo.picture.width.toNat)
    (hheight : 0 < photo.picture.height.toNat) (hs : Scale.isPositive s = true) (hle : s ≤ t)
    (hfiniteWidth : (photo.picture.width.toFloat * s).isFinite = true →
      (photo.picture.width.toFloat * t).isFinite = true)
    (hfiniteHeight : (photo.picture.height.toFloat * s).isFinite = true →
      (photo.picture.height.toFloat * t).isFinite = true)
    (h : photo.edit limits (.resize t kernel) = .ok larger) :
    ∃ smaller, photo.edit limits (.resize s kernel') = .ok smaller ∧
      smaller.picture.width.toNat ≤ larger.picture.width.toNat ∧
      smaller.picture.height.toNat ≤ larger.picture.height.toNat := by
  obtain ⟨ht, hfits, -, hreshaped⟩ := made_of_edit h
  have hwidthLe := Scale.side_le_of_le hwidth hs ht hle hfiniteWidth
  have hheightLe := Scale.side_le_of_le hheight hs ht hle hfiniteHeight
  have hpixels := (hfits _ rfl).pixels_le
  obtain ⟨smaller, hsmaller⟩ := edit_resize_of_fits kernel' hs
    ((Nat.mul_le_mul hwidthLe hheightLe).trans hpixels)
  have hshape := edit_reshape hsmaller
  have hwidthEq : smaller.picture.width = Scale.side s photo.picture.width :=
    congrArg Shape.width hshape
  have hheightEq : smaller.picture.height = Scale.side s photo.picture.height :=
    congrArg Shape.height hshape
  refine ⟨smaller, hsmaller, ?_, ?_⟩
  · rw [hwidthEq]
    exact hwidthLe.trans_eq (congrArg (fun shape => shape.width.toNat) hreshaped.symm)
  · rw [hheightEq]
    exact hheightLe.trans_eq (congrArg (fun shape => shape.height.toNat) hreshaped.symm)

/-- A row of four pixels keeps its sides or is halved. -/
theorem resize_of_le_halved : ∃ larger smaller,
    row.edit .fourPixels (.resize (1 : Float) .linear) = .ok larger ∧
      row.edit .fourPixels (.resize (0.5 : Float) .linear) = .ok smaller ∧
      smaller.picture.width.toNat ≤ larger.picture.width.toNat ∧
      smaller.picture.height.toNat ≤ larger.picture.height.toNat := by
  have hfits : (Scale.side (1 : Float) row.picture.width).toNat
      * (Scale.side (1 : Float) row.picture.height).toNat
        ≤ Limits.fourPixels.maxOutputPixels.toNat := by decide
  have hhalf : Scale.isPositive (0.5 : Float) = true := by decide
  have hle : (0.5 : Float) ≤ 1 := by decide
  obtain ⟨larger, hlarger⟩ := edit_resize_of_fits .linear (by decide) hfits
  obtain ⟨smaller, hsmaller, hsides⟩ := resize_of_le (by decide) (by decide) hhalf hle
    (fun _ => by decide) (fun _ => by decide) hlarger
  exact ⟨larger, smaller, hlarger, hsmaller, hsides⟩

/-- An infinite factor is not refused where a factor of two is, but makes a single pixel. -/
theorem resize_infinite :
    Scale.isPositive (2 : Float) = true ∧ (2 : Float) ≤ 1 / 0 ∧
      (∃ d, row.edit .fourPixels (.resize (2 : Float) .linear) = .error (.tooLarge d)) ∧
      ∃ changed, row.edit .fourPixels (.resize (1 / 0 : Float) .linear) = .ok changed ∧
        changed.picture.width = 1 ∧ changed.picture.height = 1 := by
  have hfits : (Scale.side (1 / 0 : Float) row.picture.width).toNat
      * (Scale.side (1 / 0 : Float) row.picture.height).toNat
        ≤ Limits.fourPixels.maxOutputPixels.toNat := by decide
  have hlarge : Limits.fourPixels.maxOutputPixels.toNat
      < (Scale.side (2 : Float) row.picture.width).toNat
        * (Scale.side (2 : Float) row.picture.height).toNat := by decide
  obtain ⟨changed, hchanged⟩ := edit_resize_of_fits .linear (by decide) hfits
  have hshape := edit_reshape hchanged
  refine ⟨by decide, by decide, edit_resize_of_too_large .linear (by decide) hlarge, changed,
    hchanged, ?_, ?_⟩
  · exact (congrArg Shape.width hshape).trans (by decide)
  · exact (congrArg Shape.height hshape).trans (by decide)

end Photo

end ImagePipeline
