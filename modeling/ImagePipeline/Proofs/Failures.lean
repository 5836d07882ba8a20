/-!
# Failures in a row

What two readings in a row come to: both have succeeded, or the first failure is the answer. Among
the items of a list the first that fails is the head or is found in the tail (`split_cons_iff`).
-/

namespace ImagePipeline

theorem bind_ok {ε α β : Type} {first : Except ε α} {next : α → Except ε β} {b : β}
    (h : first >>= next = .ok b) : ∃ a, first = .ok a ∧ next a = .ok b := by
  cases first with
  | error e => cases h
  | ok a => exact ⟨a, rfl, h⟩

theorem bind_error {ε α β : Type} {first : Except ε α} {next : α → Except ε β} {e : ε}
    (h : first >>= next = .error e) :
    first = .error e ∨ ∃ a, first = .ok a ∧ next a = .error e := by
  cases first with
  | error e' => exact .inl (congrArg _ (Except.error.inj h))
  | ok a => exact .inr ⟨a, rfl, h⟩

/-- A split of a list at an item, after items that all have a property, is one at the head, or one
of the tail after a head that has it. -/
theorem split_cons_iff {α : Type} {P : α → Prop} {Q : Nat → α → Prop} {a : α} {l : List α} :
    (∃ before b after, a :: l = before ++ b :: after ∧ (∀ x ∈ before, P x) ∧ Q before.length b) ↔
      Q 0 a ∨ P a ∧ ∃ before b after,
        l = before ++ b :: after ∧ (∀ x ∈ before, P x) ∧ Q (before.length + 1) b := by
  constructor
  · rintro ⟨before, b, after, hsplit, hbefore, hb⟩
    cases before with
    | nil =>
      cases hsplit
      exact .inl hb
    | cons head tail =>
      cases hsplit
      obtain ⟨hhead, htail⟩ := List.forall_mem_cons.mp hbefore
      exact .inr ⟨hhead, tail, b, after, rfl, htail, hb⟩
  · rintro (ha | ⟨ha, before, b, after, rfl, hbefore, hb⟩)
    · exact ⟨[], a, l, rfl, List.forall_mem_nil _, ha⟩
    · exact ⟨a :: before, b, after, rfl, List.forall_mem_cons.mpr ⟨ha, hbefore⟩, hb⟩

end ImagePipeline
