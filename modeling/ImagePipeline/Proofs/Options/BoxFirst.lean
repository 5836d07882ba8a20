import ImagePipeline.Proofs.Geometry.UsablePlan
import ImagePipeline.Proofs.Options.NormalForm
import ImagePipeline.Proofs.Options.Resize
import ImagePipeline.Proofs.Pipeline.Reading

/-!
# A box before edges and percentage

The options of a resize that was read have a size to aim at, and a box stands alone. What edges and
percentage were told beside it never mattered, wherever the tokens stand: they are dropped when all
has been read (`ResizeOptions.parse_box_first`).
-/

namespace ImagePipeline.ResizeOptions

variable {op : Operation} {o a b : ResizeOptions}

theorem hasBox_preferBox (o : ResizeOptions) : o.preferBox.hasBox = o.hasBox := by
  unfold preferBox
  split <;> rfl

theorem preferBox_eq_of_box (h : o.hasBox = true) :
    o.preferBox = { o with l := 0, s := 0, p := 0 } := by
  rw [preferBox, if_pos h]

theorem proper_of_parse (h : parse op = .ok o) : o.Proper := by
  obtain ⟨scanned, -, hsettle⟩ := bind_ok h
  obtain ⟨hpreferred, htarget⟩ := settle_ok_iff.mp hsettle
  constructor
  · intro hbox
    rw [← hasBox_iff, ← hpreferred, hasBox_preferBox] at hbox
    rw [← hpreferred, preferBox_eq_of_box hbox]
    exact ⟨rfl, rfl, rfl⟩
  · exact hasTarget_iff.mp htarget

/-- Options with the same box settle alike, whatever their edges and percentages are. -/
theorem settle_congr (hbox : a.hasBox = true) (hw : a.w = b.w) (hh : a.h = b.h)
    (hlimit : a.limit = b.limit) (hmode : a.mode = b.mode) (hcolour : a.colour = b.colour) :
    a.settle = b.settle := by
  have hbox' : b.hasBox = true := by
    rw [hasBox, ← hw, ← hh]
    exact hbox
  rw [settle, settle, preferBox_eq_of_box hbox, preferBox_eq_of_box hbox', hw, hh, hlimit, hmode,
    hcolour]

theorem parse_eq_of_sound (h : Options.Sound Malformed op.params) :
    parse op = (told (Options.lastValue op.params)).settle := by
  have hscan : Options.scan take {} op.params = .ok (told (Options.lastValue op.params)) :=
    tabular.scan_eq h
  rw [parse, ofParams, hscan]
  rfl

/-! ### Edges and percentage told beside a box -/

def secondaryKeys : List String := ["p", "l", "s"]

/-- A token that tells an edge or a percentage, and can be read. -/
def Secondary (token : String) : Prop :=
  ∃ key value n, key ∈ secondaryKeys ∧ token = Options.token key value ∧
    Text.uint32? value = some n

theorem Secondary.keyValue {t : String} (h : Secondary t) : ∃ key value n,
    Operation.keyValue? t = some (key, value) ∧ key ∈ secondaryKeys ∧
      Text.uint32? value = some n := by
  obtain ⟨key, value, n, hkey, rfl, hread⟩ := h
  have hplain : ∀ key ∈ secondaryKeys, '_' ∉ key.toList := by decide
  exact ⟨key, value, n, Operation.keyValue?_token (hplain key hkey) value, hkey, hread⟩

theorem Secondary.not_faulty {t : String} (h : Secondary t) (e : OptionError) :
    ¬ Options.Faulty Malformed t e := by
  obtain ⟨key, value, n, hcut, hkey, hread⟩ := h.keyValue
  rintro ⟨pair, hcut', hmalformed⟩
  rw [hcut] at hcut'
  cases hcut'
  cases hmalformed with
  | number _ unread =>
    rw [hread] at unread
    cases unread
  | colour => exact absurd hkey (by decide)

theorem lastValue_of_inserted {tokens more : List String}
    (h : Options.Inserted Secondary tokens more) {key : String} (hkey : key ∉ secondaryKeys) :
    Options.lastValue (more.filterMap Operation.keyValue?) key
      = Options.lastValue (tokens.filterMap Operation.keyValue?) key := by
  apply Options.lastValue_congr (p := fun pair => decide (pair.1 ∉ secondaryKeys))
  · intro value
    exact decide_eq_true hkey
  · refine h.filter_filterMap ?_
    intro t ht pair hcut
    obtain ⟨key', value, n, hcut', hkey', -⟩ := ht.keyValue
    rw [hcut'] at hcut
    cases hcut
    exact decide_eq_false (not_not.mpr hkey')

theorem parse_of_inserted (hparse : parse op = .ok o) (hbox : 0 < o.w ∨ 0 < o.h)
    {more : List String} (hmore : Options.Inserted Secondary op.options more) :
    parse ⟨op.name, more⟩ = .ok o := by
  obtain ⟨scanned, hscan, hsettle⟩ := bind_ok hparse
  have hsound : Options.Sound Malformed op.params := tabular.sound_of_scan hscan
  have hsoundMore : Options.Sound Malformed (Operation.params ⟨op.name, more⟩) := by
    refine Options.sound_iff.mpr ?_
    intro t ht
    rcases hmore.mem ht with htold | hsecondary
    · exact Options.sound_iff.mp hsound t htold
    · exact hsecondary.not_faulty
  have hread {key : String} (hkey : key ∉ secondaryKeys) :
      Options.lastValue (Operation.params ⟨op.name, more⟩) key
        = Options.lastValue op.params key := lastValue_of_inserted hmore hkey
  have htold := parse_eq_of_sound hsound
  rw [hparse] at htold
  rw [parse_eq_of_sound hsoundMore, htold]
  have hpreferred := (settle_ok_iff.mp htold.symm).1
  have hbox : (told (Options.lastValue op.params)).hasBox = true := by
    rw [← hasBox_preferBox, hpreferred, hasBox_iff]
    exact hbox
  symm
  apply settle_congr hbox <;> simp only [told, Options.entry] <;> rw [hread (by decide)]

/-- Options that were read have something to aim at and, beside a box, neither edges nor a
percentage; so there is a plan for every image with pixels. Whatever well-formed edges and
percentages are told beside the box, at any place among the tokens, the same options are read, and
with them the same plans. -/
theorem parse_box_first (hparse : parse op = .ok o) :
    o.Proper ∧ (∀ source : Shape, source.Pixelled → ∃ plan, o.plan source = .ok plan) ∧
      (0 < o.w ∨ 0 < o.h → ∀ more, Options.Inserted Secondary op.options more →
        parse ⟨op.name, more⟩ = .ok o) := by
  refine ⟨proper_of_parse hparse, ?_, fun hbox more => parse_of_inserted hparse hbox⟩
  intro source hsource
  obtain ⟨plan, hplan, -⟩ := plan_usable hsource (hasTarget_of_parse hparse)
  exact ⟨plan, hplan⟩

/-- The width is taken back by a later token and the height is not; edges and percentages stand
before it, behind it and twice. -/
theorem parse_box_first_of_height :
    let op : Operation := ⟨"resize", ["w_7", "p_50", "h_100", "w_0", "m_fill"]⟩
    let o : ResizeOptions := { h := 100, mode := .fill }
    parse op = .ok o ∧ 0 < o.h ∧
      parse ⟨"resize", ["l_300", "w_7", "p_50", "s_+20", "h_100", "w_0", "p_7", "m_fill", "l_0"]⟩
        = .ok o ∧
      ∃ plan, o.plan ⟨400, 300, false⟩ = .ok plan := by
  intro op o
  have hparse : parse op = .ok o := by rfl
  have hbox : 0 < o.h := by decide
  obtain ⟨-, hplan, hmore⟩ := parse_box_first hparse
  have hl : Secondary "l_300" := ⟨"l", "300", 300, by decide, by rfl, by rfl⟩
  have hs : Secondary "s_+20" := ⟨"s", "+20", 20, by decide, by rfl, by rfl⟩
  have hp : Secondary "p_7" := ⟨"p", "7", 7, by decide, by rfl, by rfl⟩
  have hzero : Secondary "l_0" := ⟨"l", "0", 0, by decide, by rfl, by rfl⟩
  refine ⟨hparse, hbox, ?_, hplan ⟨400, 300, false⟩ ⟨by decide, by decide⟩⟩
  exact hmore (.inr hbox) _ <| .added hl <| .kept <| .kept <| .added hs <| .kept <| .kept <|
    .added hp <| .kept <| .added hzero .nil

end ImagePipeline.ResizeOptions
