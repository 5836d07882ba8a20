import ImagePipeline.Proofs.Config.Overlay

/-!
# Merging, path by path

What stands at a path of a merged value is decided by what the overlay has at that path and on the
way there. Something at the path itself goes over what the base has, as in `merge`. With nothing at
the path the base shows through, unless the way there ends in a value of the overlay that has no
entries (`Value.Open`). Everything that is promised of merging follows from these cases, with
values compared as maps are, by what they hold at each path (`Value.Agrees`).
-/

namespace ImagePipeline.Config.Value

variable {base overlay v w : Value} {path rest : List String} {key : String}

theorem isTable_of_entry (h : v.entry? key = some w) : v.isTable = true := by
  cases v with
  | table entries => rfl
  | null | string | integer | float | boolean | datetime | array => cases h

theorem isTable_of_at? (h : v.at? (key :: rest) = some w) : v.isTable = true := by
  obtain ⟨entry, hentry, -⟩ := Option.bind_eq_some_iff.mp h
  exact isTable_of_entry hentry

theorem at?_cons (h : v.entry? key = some w) : v.at? (key :: rest) = w.at? rest := by
  rw [at?, h, Option.bind_some]

theorem at?_cons_none (h : v.entry? key = none) : v.at? (key :: rest) = none := by
  rw [at?, h, Option.bind_none]

theorem at?_of_plain (h : v.isTable = false) : v.at? (key :: rest) = none := by
  cases hat : v.at? (key :: rest) with
  | none => rfl
  | some w => cases h.symm.trans (isTable_of_at? hat)

theorem entry?_merge (hbase : base.isTable = true) (hoverlay : overlay.isTable = true)
    (key : String) :
    entry? key (merge base overlay) =
      match base.entry? key, overlay.entry? key with
      | some v, some o => some (merge v o)
      | some v, none => some v
      | none, o => o := by
  cases base with
  | table lower =>
    cases overlay with
    | table upper =>
      rw [merge_table]
      exact lookup_merged lower upper key
    | null | string | integer | float | boolean | datetime | array => cases hoverlay
  | null | string | integer | float | boolean | datetime | array => cases hbase

/-! ### The way to a path -/

/-- Whatever the value holds on the way to the path, before its end, is a table. -/
def Open (v : Value) (path : List String) : Prop :=
  ∀ before, before <+: path → before ≠ path → ∀ w, v.at? before = some w → w.isTable = true

theorem open_nil (v : Value) : v.Open [] :=
  fun _ hprefix hne => absurd (List.prefix_nil.mp hprefix) hne

theorem open_cons_iff : v.Open (key :: rest) ↔
    v.isTable = true ∧ ∀ entry, v.entry? key = some entry → entry.Open rest := by
  constructor
  · intro hopen
    refine ⟨hopen [] (List.nil_prefix) (List.cons_ne_nil key rest).symm v rfl, ?_⟩
    intro entry hentry before hprefix hne w hw
    refine hopen (key :: before) (List.cons_prefix_cons.mpr ⟨rfl, hprefix⟩) ?_ w ?_
    · exact fun h => hne (List.cons.inj h).2
    · rw [at?_cons hentry, hw]
  · rintro ⟨htable, hentries⟩ before hprefix hne w hw
    cases before with
    | nil =>
      cases hw
      exact htable
    | cons first before =>
      obtain ⟨rfl, hbefore⟩ := List.cons_prefix_cons.mp hprefix
      obtain ⟨entry, hentry, hat⟩ := Option.bind_eq_some_iff.mp hw
      have hrest : before ≠ rest := fun h => hne (congrArg (first :: ·) h)
      exact hentries entry hentry before hbefore hrest w hat

/-- What is found at a path is found by going through tables. -/
theorem open_of_at? (h : v.at? path = some w) : v.Open path := by
  induction path generalizing v with
  | nil => exact open_nil v
  | cons key rest ih =>
    refine open_cons_iff.mpr ⟨isTable_of_at? h, fun entry hentry => ih ?_⟩
    rw [← h, at?_cons hentry]

theorem exists_plain_of_not_open (h : ¬ v.Open path) :
    ∃ before, before <+: path ∧ before ≠ path ∧
      ∃ w, v.at? before = some w ∧ w.isTable = false := by
  simp only [Open, Classical.not_forall, Bool.not_eq_true] at h
  obtain ⟨before, hprefix, hne, w, hw, hplain⟩ := h
  exact ⟨before, hprefix, hne, w, hw, hplain⟩

/-! ### What stands at a path of the merged value -/

theorem at?_merge_of_both {lower upper : Value} (hbase : base.at? path = some lower)
    (hoverlay : overlay.at? path = some upper) :
    (merge base overlay).at? path = some (merge lower upper) := by
  induction path generalizing base overlay with
  | nil =>
    cases hbase
    cases hoverlay
    rfl
  | cons key rest ih =>
    have hmerged := entry?_merge (isTable_of_at? hbase) (isTable_of_at? hoverlay) key
    obtain ⟨v, hv, hlower⟩ := Option.bind_eq_some_iff.mp hbase
    obtain ⟨o, ho, hupper⟩ := Option.bind_eq_some_iff.mp hoverlay
    rw [hv, ho] at hmerged
    rw [at?_cons hmerged]
    exact ih hlower hupper

theorem at?_merge_of_overlay {upper : Value} (hbase : base.at? path = none)
    (hoverlay : overlay.at? path = some upper) : (merge base overlay).at? path = some upper := by
  induction path generalizing base overlay with
  | nil => cases hbase
  | cons key rest ih =>
    cases htable : base.isTable with
    | false => rw [merge_of_base htable, hoverlay]
    | true =>
      have hmerged := entry?_merge htable (isTable_of_at? hoverlay) key
      obtain ⟨o, ho, hupper⟩ := Option.bind_eq_some_iff.mp hoverlay
      cases hv : base.entry? key with
      | none =>
        rw [hv, ho] at hmerged
        rw [at?_cons hmerged, hupper]
      | some v =>
        rw [hv, ho] at hmerged
        rw [at?_cons hmerged]
        exact ih (at?_cons hv ▸ hbase) hupper

theorem at?_merge_of_open (hoverlay : overlay.at? path = none) (hopen : overlay.Open path) :
    (merge base overlay).at? path = base.at? path := by
  induction path generalizing base overlay with
  | nil => cases hoverlay
  | cons key rest ih =>
    obtain ⟨htable, hentries⟩ := open_cons_iff.mp hopen
    cases hplain : base.isTable with
    | false => rw [merge_of_base hplain, hoverlay, at?_of_plain hplain]
    | true =>
      have hmerged := entry?_merge hplain htable key
      cases ho : overlay.entry? key with
      | none =>
        have hsame : entry? key (merge base overlay) = base.entry? key := by
          rw [hmerged, ho]
          cases base.entry? key <;> rfl
        rw [at?, at?, hsame]
      | some o =>
        have hrest : o.at? rest = none := at?_cons ho ▸ hoverlay
        cases hv : base.entry? key with
        | none =>
          rw [hv, ho] at hmerged
          rw [at?_cons hmerged, hrest, at?_cons_none hv]
        | some v =>
          rw [hv, ho] at hmerged
          rw [at?_cons hmerged, at?_cons hv]
          exact ih hrest (hentries o ho)

theorem at?_merge_of_not_open (hopen : ¬ overlay.Open path) :
    (merge base overlay).at? path = none := by
  induction path generalizing base overlay with
  | nil => exact absurd (open_nil overlay) hopen
  | cons key rest ih =>
    cases htable : overlay.isTable with
    | false => rw [merge_of_overlay base htable, at?_of_plain htable]
    | true =>
      rw [open_cons_iff] at hopen
      simp only [htable, true_and, Classical.not_forall] at hopen
      obtain ⟨o, ho, hclosed⟩ := hopen
      have hrest : o.at? rest = none := by
        cases hat : o.at? rest with
        | none => rfl
        | some w => exact absurd (open_of_at? hat) hclosed
      cases hplain : base.isTable with
      | false => rw [merge_of_base hplain, at?_cons ho, hrest]
      | true =>
        have hmerged := entry?_merge hplain htable key
        cases hv : base.entry? key with
        | none =>
          rw [hv, ho] at hmerged
          rw [at?_cons hmerged, hrest]
        | some v =>
          rw [hv, ho] at hmerged
          rw [at?_cons hmerged]
          exact ih hclosed

/-! ### Values that hold the same -/

/-- The value when it is not a table, of which only the entries count. -/
def plain? : Value → Option Value
  | table _ => none
  | v => some v

/-- The two hold the same at every path: the same paths lead somewhere, and where one of them holds
something other than a table the other holds exactly that. -/
def Agrees (v w : Value) : Prop :=
  ∀ path, (v.at? path).map plain? = (w.at? path).map plain?

/-! ### The overlay -/

def keys (entries : Entries) : List String := entries.map Prod.fst

theorem mem_keys_iff {entries : Entries} : key ∈ keys entries ↔ (entries.lookup key).isSome := by
  induction entries with
  | nil => simp [keys]
  | cons entry rest ih =>
    obtain ⟨name, v⟩ := entry
    rw [keys] at ih
    by_cases hname : key = name
    · simp [keys, hname]
    · have hother : (key == name) = false := beq_eq_false_iff_ne.mpr hname
      simp [keys, hname, hother, ih, List.lookup_cons]

theorem mem_keys_merged (lower upper : Entries) (key : String) :
    key ∈ keys (mergeEntries lower upper ++ newEntries lower upper) ↔
      key ∈ keys lower ∨ key ∈ keys upper := by
  simp only [mem_keys_iff, lookup_merged]
  cases lower.lookup key <;> cases upper.lookup key <;> simp

/-- The third value is the overlay laid over the base, at every path. -/
structure Overlaid (base overlay merged : Value) : Prop where
  replaced {path : List String} {v : Value} (above : overlay.at? path = some v)
    (plain : v.isTable = false) : merged.at? path = some v
  kept {path : List String} (absent : overlay.at? path = none) (way : overlay.Open path) :
    merged.at? path = base.at? path
  joined {path : List String} {lower upper : Entries} (below : base.at? path = some (table lower))
    (above : overlay.at? path = some (table upper)) :
    ∃ entries, merged.at? path = some (table entries) ∧
      ∀ key, key ∈ keys entries ↔ key ∈ keys lower ∨ key ∈ keys upper
  laid {path : List String} {upper : Entries} (above : overlay.at? path = some (table upper))
    (below : ∀ lower, base.at? path ≠ some (table lower)) : merged.at? path = some (table upper)
  nothingElse {path : List String} {v : Value} (there : merged.at? path = some v) :
    (overlay.at? path).isSome ∨ overlay.at? path = none ∧ overlay.Open path ∧
      base.at? path = some v

theorem overlaid_merge (base overlay : Value) : Overlaid base overlay (merge base overlay) where
  replaced {path v} above plain := by
    cases hbase : base.at? path with
    | none => exact at?_merge_of_overlay hbase above
    | some lower => rw [at?_merge_of_both hbase above, merge_of_overlay lower plain]
  kept := at?_merge_of_open
  joined {path lower upper} below above := by
    refine ⟨mergeEntries lower upper ++ newEntries lower upper, ?_, mem_keys_merged lower upper⟩
    rw [at?_merge_of_both below above, merge_table]
  laid {path upper} above below := by
    cases hbase : base.at? path with
    | none => exact at?_merge_of_overlay hbase above
    | some lower =>
      have hplain : lower.isTable = false := by
        cases lower with
        | table entries => exact absurd hbase (below entries)
        | null | string | integer | float | boolean | datetime | array => rfl
      rw [at?_merge_of_both hbase above, merge_of_base hplain]
  nothingElse {path v} there := by
    cases hoverlay : overlay.at? path with
    | some upper => exact .inl rfl
    | none =>
      by_cases hopen : overlay.Open path
      · exact .inr ⟨rfl, hopen, by rw [← at?_merge_of_open hoverlay hopen, there]⟩
      · rw [at?_merge_of_not_open hopen] at there
        cases there

theorem Overlaid.exists_table {merged : Value} (h : Overlaid base overlay merged) {upper : Entries}
    (above : overlay.at? path = some (table upper)) :
    ∃ entries, merged.at? path = some (table entries) := by
  by_cases hbase : ∃ lower, base.at? path = some (table lower)
  · obtain ⟨lower, below⟩ := hbase
    obtain ⟨entries, hentries, -⟩ := h.joined below above
    exact ⟨entries, hentries⟩
  · exact ⟨upper, h.laid above fun lower below => hbase ⟨lower, below⟩⟩

/-- An overlay has nothing to add to a value that it already lies over. -/
theorem agrees_merge_again (base overlay : Value) :
    Agrees (merge (merge base overlay) overlay) (merge base overlay) := by
  have honce := overlaid_merge base overlay
  have htwice := overlaid_merge (merge base overlay) overlay
  intro path
  cases hoverlay : overlay.at? path with
  | none =>
    by_cases hopen : overlay.Open path
    · rw [htwice.kept hoverlay hopen]
    · rw [at?_merge_of_not_open hopen, at?_merge_of_not_open hopen]
  | some upper =>
    cases upper with
    | table entries =>
      obtain ⟨once, hleft⟩ := honce.exists_table hoverlay
      obtain ⟨twice, hright⟩ := htwice.exists_table hoverlay
      rw [hleft, hright]
      rfl
    | null | string | integer | float | boolean | datetime | array =>
      rw [htwice.replaced hoverlay rfl, honce.replaced hoverlay rfl]

theorem mergeEntries_nil (entries : Entries) : mergeEntries entries [] = entries := by
  induction entries with
  | nil => rw [mergeEntries]
  | cons entry rest ih =>
    rw [mergeEntries, ih]
    rfl

theorem merge_empty (entries : Entries) : merge (table entries) (table []) = table entries := by
  rw [merge_table, mergeEntries_nil, newEntries, List.filter_nil, List.append_nil]

/-- A path of the base that leads nowhere after merging goes through a value of the overlay that
has taken the place of a table. -/
theorem exists_plain_of_lost (hbase : base.at? path = some v)
    (hlost : (merge base overlay).at? path = none) :
    ∃ before, before <+: path ∧ before ≠ path ∧
      ∃ w, overlay.at? before = some w ∧ w.isTable = false := by
  refine exists_plain_of_not_open fun hopen => ?_
  cases hoverlay : overlay.at? path with
  | none =>
    rw [at?_merge_of_open hoverlay hopen, hbase] at hlost
    cases hlost
  | some upper =>
    rw [at?_merge_of_both hbase hoverlay] at hlost
    cases hlost

/-- Merging lays the overlay over the base path by path. So to merge the same overlay again changes
nothing, an empty overlay leaves a table as it is, and what the base has at a path is lost only
where a value of the overlay has replaced it or a table on the way to it. -/
theorem merge_pathwise (base overlay : Value) :
    Overlaid base overlay (merge base overlay) ∧
      Agrees (merge (merge base overlay) overlay) (merge base overlay) ∧
      (∀ entries, merge (table entries) (table []) = table entries) ∧
      ∀ path v, base.at? path = some v → (merge base overlay).at? path = none →
        ∃ before, before <+: path ∧ before ≠ path ∧
          ∃ w, overlay.at? before = some w ∧ w.isTable = false :=
  ⟨overlaid_merge base overlay, agrees_merge_again base overlay, merge_empty,
    fun _ _ => exists_plain_of_lost⟩

/-- A limit shows through beside a quality that is overlaid, and a level that was a table is lost
with its name under one that is not. -/
theorem merge_pathwise_image :
    let base := table [("image", table [("quality", integer 85), ("limit", integer 9)]),
      ("level", table [("name", string "info")])]
    let overlay := table [("image", table [("quality", integer 70)]), ("level", boolean true)]
    (merge base overlay).at? ["image", "quality"] = some (integer 70) ∧
      (merge base overlay).at? ["image", "limit"] = some (integer 9) ∧
      (∃ entries, (merge base overlay).at? ["image"] = some (table entries) ∧
        ∀ key, key ∈ keys entries ↔ key ∈ ["quality", "limit"] ∨ key ∈ ["quality"]) ∧
      ∃ before, before <+: ["level", "name"] ∧ before ≠ ["level", "name"] ∧
        ∃ w, overlay.at? before = some w ∧ w.isTable = false := by
  intro base overlay
  obtain ⟨hlaid, -, -, hlost⟩ := merge_pathwise base overlay
  have hbelow : base.at? ["image"] = some (table [("quality", integer 85), ("limit", integer 9)]) :=
    rfl
  have hjoined := hlaid.joined hbelow rfl
  refine ⟨hlaid.replaced rfl rfl, hlaid.kept rfl ?_, hjoined, ?_⟩
  · refine open_cons_iff.mpr ⟨rfl, fun image himage => ?_⟩
    cases himage
    refine open_cons_iff.mpr ⟨rfl, fun limit hlimit => ?_⟩
    cases hlimit
  · exact hlost ["level", "name"] (string "info") rfl
      (at?_merge_of_not_open fun hopen => nomatch hopen ["level"] ⟨["name"], rfl⟩ nofun _ rfl)

end ImagePipeline.Config.Value
