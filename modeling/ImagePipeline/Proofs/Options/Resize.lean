import ImagePipeline.Proofs.Options.Tokens

/-!
# Resize options told in tokens

Resize options that meet their own rule are read from any tokens that tell them
(`ResizeOptions.parse_of_tells`).
-/

namespace ImagePipeline

theorem ResizeMode.ofName_name (m : ResizeMode) : ofName m.name = m := by
  cases m <;> rfl

namespace ResizeOptions

def limitNumber (o : ResizeOptions) : UInt32 := if o.limit then 1 else 0

/-- What is written for a key. -/
def written (o : ResizeOptions) : String → Option String
  | "w" => some (Text.decimal o.w.toNat)
  | "h" => some (Text.decimal o.h.toNat)
  | "l" => some (Text.decimal o.l.toNat)
  | "s" => some (Text.decimal o.s.toNat)
  | "p" => some (Text.decimal o.p.toNat)
  | "limit" => some (Text.decimal o.limitNumber.toNat)
  | "m" => some o.mode.name
  | "color" => o.colour.map Rgb.toHex
  | _ => none

theorem limitNumber_ne_zero (o : ResizeOptions) : (o.limitNumber != 0) = o.limit := by
  unfold limitNumber
  cases o.limit <;> rfl

theorem written_injective : Function.Injective written := by
  intro a b h
  have hw := Text.decimal_injective (Option.some.inj (congrFun h "w"))
  have hh := Text.decimal_injective (Option.some.inj (congrFun h "h"))
  have hl := Text.decimal_injective (Option.some.inj (congrFun h "l"))
  have hs := Text.decimal_injective (Option.some.inj (congrFun h "s"))
  have hp := Text.decimal_injective (Option.some.inj (congrFun h "p"))
  have hlimit : a.limit = b.limit := by
    have hnumber := Text.decimal_injective (Option.some.inj (congrFun h "limit"))
    rw [← limitNumber_ne_zero a, ← limitNumber_ne_zero b, hnumber]
  have hmode : a.mode = b.mode := by
    have hname : a.mode.name = b.mode.name := Option.some.inj (congrFun h "m")
    rw [← ResizeMode.ofName_name a.mode, hname, ResizeMode.ofName_name]
  have hcolour : a.colour = b.colour :=
    Option.map_injective Rgb.toHex_injective (congrFun h "color")
  cases a
  cases b
  simp_all

theorem mem_tokens {o : ResizeOptions} {t : String} :
    t ∈ o.tokens ↔ ∃ key value, o.written key = some value ∧ t = Options.token key value := by
  constructor
  · intro h
    simp only [tokens, List.mem_append, List.mem_cons, List.not_mem_nil, or_false,
      Option.mem_toList, Option.map_eq_some_iff] at h
    rcases h with (rfl | rfl | rfl | rfl | rfl | rfl | rfl) | ⟨c, hc, rfl⟩
    · exact ⟨"w", _, rfl, rfl⟩
    · exact ⟨"h", _, rfl, rfl⟩
    · exact ⟨"l", _, rfl, rfl⟩
    · exact ⟨"s", _, rfl, rfl⟩
    · exact ⟨"p", _, rfl, rfl⟩
    · exact ⟨"limit", _, rfl, rfl⟩
    · exact ⟨"m", _, rfl, rfl⟩
    · exact ⟨"color", _, congrArg (Option.map Rgb.toHex) hc, rfl⟩
  · rintro ⟨key, value, h, rfl⟩
    unfold written at h
    split at h
    case h_8 =>
      obtain ⟨c, hc, rfl⟩ := Option.map_eq_some_iff.mp h
      simp [tokens, hc]
    case h_9 => cases h
    all_goals
      cases h
      simp [tokens, Options.numberToken, limitNumber]

theorem spelling : Options.Spelling written tokens where
  injective := written_injective
  mem_tokens := mem_tokens
  plain_key := by
    intro o key value h
    unfold written at h
    split at h <;> first | decide | cases h

theorem taken (o : ResizeOptions) : Options.Taken take written o := by
  intro a key value h
  unfold written at h
  split at h
  case h_9 => cases h
  case' h_8 => obtain ⟨c, -, h⟩ := Option.map_eq_some_iff.mp h
  all_goals
    cases h
    simp only [take, Options.number_decimal, Options.colour_toHex, ResizeMode.ofName_name, bind,
      Except.bind, pure, Except.pure, limitNumber_ne_zero]
    refine ⟨_, rfl, rfl, ?_⟩
    intro other hother
    unfold written
    split <;> first | rfl | contradiction

/-! ### Reading what was told -/

theorem hasBox_iff {o : ResizeOptions} : o.hasBox = true ↔ 0 < o.w ∨ 0 < o.h := by
  simp only [hasBox, Bool.or_eq_true, decide_eq_true_eq, gt_iff_lt]

theorem hasTarget_iff {o : ResizeOptions} :
    o.hasTarget = true ↔ 0 < o.w ∨ 0 < o.h ∨ 0 < o.l ∨ 0 < o.s ∨ 0 < o.p := by
  simp only [hasTarget, hasEdges, Bool.or_eq_true, decide_eq_true_eq, gt_iff_lt, or_assoc]

/-- The rule for resize options: a box stands alone, and something is asked for. -/
structure Proper (o : ResizeOptions) : Prop where
  alone : 0 < o.w ∨ 0 < o.h → o.l = 0 ∧ o.s = 0 ∧ o.p = 0
  aims : 0 < o.w ∨ 0 < o.h ∨ 0 < o.l ∨ 0 < o.s ∨ 0 < o.p

theorem Proper.preferBox_eq {o : ResizeOptions} (h : o.Proper) : o.preferBox = o := by
  unfold preferBox
  split
  · rename_i hbox
    obtain ⟨hl, hs, hp⟩ := h.alone (hasBox_iff.mp hbox)
    cases o
    simp_all
  · rfl

theorem Proper.settle_eq {o : ResizeOptions} (h : o.Proper) : o.settle = .ok o := by
  unfold settle
  rw [h.preferBox_eq]
  simp only [hasTarget_iff.mpr h.aims, if_true]

theorem parse_of_tells {o : ResizeOptions} (h : o.Proper) {options : List String}
    (htells : Options.Tells options o.tokens ({} : ResizeOptions).tokens) :
    parse ⟨"resize", options⟩ = .ok o := by
  have hstart : ∀ key, o.written key = none → ({} : ResizeOptions).written key = none := by
    intro key hkey
    unfold written at hkey ⊢
    split <;> first | rfl | cases hkey
  have hscan := spelling.scan_params (taken o) htells hstart
  rw [parse, ofParams, Operation.params, hscan]
  exact h.settle_eq

theorem unbroken_of_mem_tokens {o : ResizeOptions} {t : String} (h : t ∈ o.tokens) :
    Operation.Unbroken t := by
  obtain ⟨key, value, hwritten, rfl⟩ := mem_tokens.mp h
  unfold written at hwritten
  split at hwritten
  case h_9 => cases hwritten
  case h_8 =>
    obtain ⟨c, -, rfl⟩ := Option.map_eq_some_iff.mp hwritten
    exact .token (by decide) (Operation.unbroken_toHex c)
  case h_7 =>
    cases hwritten
    exact .token (by decide) (by cases o.mode <;> decide)
  all_goals
    cases hwritten
    exact .token (by decide) (Operation.unbroken_decimal _)

end ResizeOptions

end ImagePipeline
