import ImagePipeline.Config.Value

/-!
# What an overlay leaves under a key

Two tables that are merged give a table again. Under a key that both have stands what the one entry
becomes under the other, under a key of one of them its entry (`lookup_merged`). Values of which one
is no table are not merged at all: the overlay takes the place of the base.
-/

namespace ImagePipeline.Config.Value

theorem merge_table (base overlay : Entries) :
    merge (table base) (table overlay)
      = table (mergeEntries base overlay ++ newEntries base overlay) := by
  rw [merge]

theorem merge_of_base {base : Value} (h : base.isTable = false) (overlay : Value) :
    merge base overlay = overlay := by
  cases base with
  | table entries => cases h
  | null | string | integer | float | boolean | datetime | array => rw [merge]; nofun

theorem merge_of_overlay (base : Value) {overlay : Value} (h : overlay.isTable = false) :
    merge base overlay = overlay := by
  cases overlay with
  | table entries => cases h
  | null | string | integer | float | boolean | datetime | array => rw [merge]; nofun

theorem lookup_mergeEntries (base overlay : Entries) (key : String) :
    (mergeEntries base overlay).lookup key = (base.lookup key).map fun v =>
      match overlay.lookup key with
      | some o => merge v o
      | none => v := by
  induction base with
  | nil => simp [mergeEntries]
  | cons entry rest ih =>
    obtain ⟨name, v⟩ := entry
    by_cases hname : key = name
    · subst hname
      cases hoverlay : overlay.lookup key <;> simp [mergeEntries, hoverlay]
    · have hother : (key == name) = false := beq_eq_false_iff_ne.mpr hname
      simp [mergeEntries, List.lookup_cons, hother, ih]

theorem lookup_newEntries (base overlay : Entries) (key : String) :
    (newEntries base overlay).lookup key =
      if (base.lookup key).isNone then overlay.lookup key else none := by
  induction overlay with
  | nil => simp [newEntries]
  | cons entry rest ih =>
    obtain ⟨name, v⟩ := entry
    rw [newEntries] at ih
    by_cases hname : key = name
    · subst hname
      by_cases hbase : (base.lookup key).isNone
      · simp [newEntries, hbase]
      · simp [newEntries, hbase, ih]
    · have hother : (key == name) = false := beq_eq_false_iff_ne.mpr hname
      by_cases hbase : (base.lookup name).isNone
      · simp [newEntries, List.lookup_cons, hbase, hother, ih]
      · simp [newEntries, List.lookup_cons, hbase, hother, ih]

theorem lookup_merged (base overlay : Entries) (key : String) :
    (mergeEntries base overlay ++ newEntries base overlay).lookup key =
      match base.lookup key, overlay.lookup key with
      | some v, some o => some (merge v o)
      | some v, none => some v
      | none, o => o := by
  rw [List.lookup_append, lookup_mergeEntries, lookup_newEntries]
  cases base.lookup key with
  | none => simp
  | some v => cases overlay.lookup key <;> simp

theorem mem_mergeEntries {base overlay : Entries} {entry : String × Value}
    (h : entry ∈ mergeEntries base overlay) : ∃ v, (entry.1, v) ∈ base := by
  induction base with
  | nil =>
    rw [mergeEntries] at h
    cases h
  | cons first rest ih =>
    rw [mergeEntries, List.mem_cons] at h
    rcases h with rfl | h
    · exact ⟨first.2, List.mem_cons_self⟩
    · obtain ⟨v, hv⟩ := ih h
      exact ⟨v, List.mem_cons_of_mem first hv⟩

/-- Merging brings in no key: if the keys of the base pass a test, then those of the merged table
pass it when those of the overlay do. -/
theorem all_keys_merged {base : Entries} {test : String → Bool}
    (h : ∀ entry ∈ base, test entry.1 = true) (overlay : Entries) :
    (mergeEntries base overlay ++ newEntries base overlay).all (fun entry => test entry.1)
      = overlay.all fun entry => test entry.1 := by
  rw [Bool.eq_iff_iff, List.all_eq_true, List.all_eq_true]
  constructor
  · intro hmerged entry hentry
    cases hlookup : base.lookup entry.1 with
    | none =>
      have hnew : entry ∈ newEntries base overlay :=
        List.mem_filter.mpr ⟨hentry, by rw [hlookup]; rfl⟩
      exact hmerged entry (List.mem_append_right _ hnew)
    | some v =>
      obtain ⟨before, after, hbase, -⟩ := List.lookup_eq_some_iff.mp hlookup
      exact h (entry.1, v) (hbase ▸ List.mem_append_right before List.mem_cons_self)
  · intro hoverlay entry hentry
    rcases List.mem_append.mp hentry with hold | hnew
    · obtain ⟨v, hv⟩ := mem_mergeEntries hold
      exact h (entry.1, v) hv
    · exact hoverlay entry (List.mem_filter.mp hnew).1

end ImagePipeline.Config.Value
