import ImagePipeline.Geometry.ResizePlan
import ImagePipeline.Proofs.Geometry.LawfulScale

/-!
# The box of a resize

What a resize aims at, said without the planner: the sides that are given or else the edges, laid
along the sides of the image (`ResizeOptions.Aims`). A side that is missing may be copied from the
other (`TargetBox.whole`), and so may an edge (`ResizeOptions.edged`). When some size is given, one
side of the box is known, and the factor along it is a proper one.
-/

namespace ImagePipeline

/-! ### Factors -/

/-- A fraction of two positive numbers of 32 bits. -/
def IsRatio (r : Rat) : Prop :=
  ∃ a b : Nat, 0 < a ∧ 0 < b ∧ a < 2 ^ 32 ∧ b < 2 ^ 32 ∧ r = (a : Rat) / b

theorem IsRatio.pos {r : Rat} (h : IsRatio r) : 0 < r := by
  obtain ⟨a, b, ha, hb, -, -, rfl⟩ := h
  have ha' : (0 : Rat) < a := by exact_mod_cast ha
  have hb' : (0 : Rat) < b := by exact_mod_cast hb
  exact div_pos ha' hb'

theorem IsRatio.isPositive {σ : Type} [Scale σ] [LawfulScale σ] {r : Rat} (h : IsRatio r) :
    Scale.isPositive (Scale.ofRatio r : σ) = true := by
  obtain ⟨a, b, ha, hb, ha', hb', rfl⟩ := h
  exact LawfulScale.isPositive_ofRatio ha hb ha' hb'

/-- A factor along a side of the box; it is missing when the side is. -/
def Scale.IsRatio? (r : Rat) : Prop := r = 0 ∨ IsRatio r

namespace Scale

theorem isRatio_ratio {target source : UInt32} (ht : target ≠ 0) (hs : source ≠ 0) :
    IsRatio (ratio target source) :=
  ⟨_, _, Number.pos_of_ne_zero ht, Number.pos_of_ne_zero hs, target.toNat_lt, source.toNat_lt, rfl⟩

theorem isRatio_percent {p : UInt32} (h : p ≠ 0) : IsRatio (percent p) :=
  ⟨p.toNat, 100, Number.pos_of_ne_zero h, by decide, p.toNat_lt, by decide, rfl⟩

theorem ratio_zero (source : UInt32) : ratio 0 source = 0 := zero_div _

theorem isRatio?_ratio (target : UInt32) {source : UInt32} (hs : source ≠ 0) :
    IsRatio? (ratio target source) := by
  by_cases ht : target = 0
  · rw [ht]
    exact .inl (ratio_zero source)
  · exact .inr (isRatio_ratio ht hs)

theorem isRatio_smaller {a b : Rat} (ha : IsRatio a) (hb : IsRatio b) : IsRatio (smaller a b) := by
  unfold smaller
  split
  · exact ha
  · exact hb

theorem isRatio_larger {a b : Rat} (ha : IsRatio? a) (hb : IsRatio? b)
    (h : IsRatio a ∨ IsRatio b) : IsRatio (larger a b) := by
  unfold larger
  rcases ha with rfl | ha
  · rcases h with h | h
    · exact absurd h.pos (lt_irrefl 0)
    · rw [if_pos h.pos.le]
      exact h
  · split
    · rename_i hle
      rcases hb with rfl | hb
      · exact absurd ha.pos (not_lt_of_ge hle)
      · exact hb
    · exact ha

end Scale

/-! ### Sides that complete each other -/

theorem coalesce_ne {α : Type} [DecidableEq α] [OfNat α 0] {a b : α} (h : a ≠ 0 ∨ b ≠ 0) :
    (coalesce a b).1 ≠ 0 ∧ (coalesce a b).2 ≠ 0 := by
  unfold coalesce
  by_cases ha : a = 0
  · rw [if_pos ha]
    have hb := h.resolve_left (not_not_intro ha)
    exact ⟨hb, hb⟩
  · rw [if_neg ha]
    by_cases hb : b = 0
    · rw [if_pos hb]
      exact ⟨ha, ha⟩
    · rw [if_neg hb]
      exact ⟨ha, hb⟩

theorem coalesce_isRatio {a b : Rat} (ha : Scale.IsRatio? a) (hb : Scale.IsRatio? b)
    (h : IsRatio a ∨ IsRatio b) : IsRatio (coalesce a b).1 ∧ IsRatio (coalesce a b).2 := by
  unfold coalesce
  rcases ha with rfl | ha
  · rw [if_pos rfl]
    have hb' := h.resolve_left fun hzero => lt_irrefl 0 hzero.pos
    exact ⟨hb', hb'⟩
  · rw [if_neg ha.pos.ne']
    rcases hb with rfl | hb
    · rw [if_pos rfl]
      exact ⟨ha, ha⟩
    · rw [if_neg hb.pos.ne']
      exact ⟨ha, hb⟩

/-! ### Boxes -/

namespace TargetBox

def Known (b : TargetBox) : Prop := b.w ≠ 0 ∨ b.h ≠ 0

theorem known_ofEdges {w h l s : UInt32} (hedges : (w ≠ 0 ∨ h ≠ 0) ∨ l ≠ 0 ∨ s ≠ 0)
    (source : Shape) : (ofEdges w h l s source).Known := by
  unfold ofEdges
  simp only [gt_iff_lt, UInt32.pos_iff_ne_zero]
  split
  · assumption
  · rename_i hbox
    have hls := hedges.resolve_left hbox
    split
    · exact hls
    · exact hls.symm

theorem coalesced_ne {b : TargetBox} (hb : b.Known) : b.coalesced.w ≠ 0 ∧ b.coalesced.h ≠ 0 :=
  coalesce_ne hb

variable {b : TargetBox} {source : Shape} (hsource : source.Pixelled)
include hsource

theorem isRatio?_wscale (b : TargetBox) : Scale.IsRatio? (b.wscale source) :=
  Scale.isRatio?_ratio b.w hsource.width_ne

theorem isRatio?_hscale (b : TargetBox) : Scale.IsRatio? (b.hscale source) :=
  Scale.isRatio?_ratio b.h hsource.height_ne

theorem filledFrom_ne (b : TargetBox) :
    (b.filledFrom source).w ≠ 0 ∧ (b.filledFrom source).h ≠ 0 := by
  have hfilled {side target : UInt32} (hside : side ≠ 0) :
      (if target = 0 then side else target) ≠ 0 := by
    split
    · exact hside
    · assumption
  exact ⟨hfilled hsource.width_ne, hfilled hsource.height_ne⟩

theorem Known.isRatio (hb : b.Known) : IsRatio (b.wscale source) ∨ IsRatio (b.hscale source) := by
  rcases hb with hw | hh
  · exact .inl (Scale.isRatio_ratio hw hsource.width_ne)
  · exact .inr (Scale.isRatio_ratio hh hsource.height_ne)

end TargetBox

/-! ### What is aimed at -/

/-- The box that a resize is about: the sides given or, when there are none, the edges given, the
long one along the width of an image that is wider than high, along the height of any other. -/
inductive ResizeOptions.Aims (o : ResizeOptions) (source : Shape) : TargetBox → Prop where
  | sized (given : o.w ≠ 0 ∨ o.h ≠ 0) : Aims o source ⟨o.w, o.h⟩
  | wide (width : o.w = 0) (height : o.h = 0) (wide : source.height < source.width) :
      Aims o source ⟨o.l, o.s⟩
  | tall (width : o.w = 0) (height : o.h = 0) (tall : source.width ≤ source.height) :
      Aims o source ⟨o.s, o.l⟩

theorem ResizeOptions.aims_box (o : ResizeOptions) (source : Shape) :
    o.Aims source (o.box source) := by
  unfold box TargetBox.ofEdges
  simp only [gt_iff_lt, UInt32.pos_iff_ne_zero]
  split
  · rename_i hgiven
    exact .sized hgiven
  · rename_i hnone
    obtain ⟨hw, hh⟩ := not_or.mp hnone
    split
    · rename_i hwide
      exact .wide (not_not.mp hw) (not_not.mp hh) hwide
    · rename_i hwide
      exact .tall (not_not.mp hw) (not_not.mp hh) (UInt32.not_lt.mp hwide)

namespace TargetBox

/-- A side that is missing is copied from the other. -/
def whole (b : TargetBox) : TargetBox :=
  ⟨if b.w = 0 then b.h else b.w, if b.h = 0 then b.w else b.h⟩

theorem coalesced_eq_whole (b : TargetBox) : b.coalesced = b.whole := by
  rcases b with ⟨w, h⟩
  simp only [coalesced, coalesce, whole]
  by_cases hw : w = 0
  · subst hw
    by_cases hh : h = 0
    · rw [hh]
      rfl
    · simp only [if_true, hh, if_false]
  · by_cases hh : h = 0
    · simp only [hw, hh, if_true, if_false]
    · simp only [hw, hh, if_false]

theorem whole_ne {b : TargetBox} (hb : b.Known) : b.whole.w ≠ 0 ∧ b.whole.h ≠ 0 := by
  rw [← coalesced_eq_whole]
  exact coalesced_ne hb

/-- The shape is exactly as large as the box. -/
def Frames (b : TargetBox) (shape : Shape) : Prop := shape.width = b.w ∧ shape.height = b.h

end TargetBox

namespace ResizeOptions

theorem edges_of_hasEdges {o : ResizeOptions} (h : o.hasEdges = true) :
    (o.w ≠ 0 ∨ o.h ≠ 0) ∨ o.l ≠ 0 ∨ o.s ≠ 0 := by
  simp only [hasEdges, gt_iff_lt, UInt32.pos_iff_ne_zero, Bool.or_eq_true, decide_eq_true_eq] at h
  rcases h with (hbox | hl) | hs
  · exact .inl hbox
  · exact .inr (.inl hl)
  · exact .inr (.inr hs)

variable {o : ResizeOptions} (hedges : o.hasEdges = true)

include hedges in
theorem known_box (source : Shape) : (o.box source).Known :=
  TargetBox.known_ofEdges (edges_of_hasEdges hedges) source

/-- The box of the options for a source, where the edges complete each other. -/
def completedBox (o : ResizeOptions) (source : Shape) : TargetBox :=
  TargetBox.ofEdges o.w o.h (coalesce o.l o.s).1 (coalesce o.l o.s).2 source

include hedges in
theorem known_completedBox (source : Shape) : (o.completedBox source).Known := by
  refine TargetBox.known_ofEdges ?_ source
  rcases edges_of_hasEdges hedges with hbox | hls
  · exact .inl hbox
  · exact .inr (.inl (coalesce_ne hls).1)

/-- An edge that is missing is copied from the other. -/
def edged (o : ResizeOptions) : ResizeOptions :=
  { o with l := if o.l = 0 then o.s else o.l, s := if o.s = 0 then o.l else o.s }

theorem completedBox_eq (o : ResizeOptions) (source : Shape) :
    o.completedBox source = o.edged.box source := by
  have hcoalesce := TargetBox.coalesced_eq_whole ⟨o.l, o.s⟩
  simp only [TargetBox.coalesced, TargetBox.whole, TargetBox.mk.injEq] at hcoalesce
  simp only [completedBox, box, edged, hcoalesce]

end ResizeOptions

end ImagePipeline
