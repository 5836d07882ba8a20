import ImagePipeline.Proofs.Text.Grammar

/-!
# Segments read back

Operations that keep both separators out of their name and tokens are read back as they were
written (`Descriptor.parse_textOf`), in front of which a namespace may stand. Those that are neither
`info` nor `format` stay in their order (`Descriptor.foldl_add`).
-/

namespace ImagePipeline

namespace Operation

/-- The text can stand in a segment: neither separator is in it. -/
def Unbroken (text : String) : Prop := ',' ∉ text.toList ∧ '/' ∉ text.toList

instance (text : String) : Decidable (Unbroken text) :=
  inferInstanceAs (Decidable (',' ∉ text.toList ∧ '/' ∉ text.toList))

theorem unbroken_of {text : String} (h : ∀ c ∈ text.toList, c ≠ ',' ∧ c ≠ '/') : Unbroken text :=
  ⟨fun hc => (h _ hc).1 rfl, fun hc => (h _ hc).2 rfl⟩

/-- The operation can be told from the text around it. -/
structure Plain (op : Operation) : Prop where
  named : op.name ≠ ""
  name : Unbroken op.name
  options : ∀ t ∈ op.options, t ≠ "" ∧ Unbroken t

variable {op : Operation} {ops : List Operation}

theorem Plain.pieces_segment (h : op.Plain) :
    Text.pieces ',' op.segment = op.name.toList :: op.options.map String.toList := by
  apply Text.pieces_joinWith (List.cons_ne_nil _ _)
  rw [List.forall_mem_cons]
  refine ⟨h.name.1, ?_⟩
  intro piece hpiece
  obtain ⟨t, ht, rfl⟩ := List.mem_map.mp hpiece
  exact (h.options t ht).2.1

theorem Plain.segment_ne_nil (h : op.Plain) : op.segment ≠ [] := by
  intro hempty
  have hpieces := h.pieces_segment
  rw [hempty, Text.pieces, List.cons.injEq] at hpieces
  exact h.named (String.toList_inj.mp hpieces.1.symm)

theorem Plain.slash_notMem_segment (h : op.Plain) : '/' ∉ op.segment := by
  intro hslash
  rcases Text.mem_joinWith hslash with hcomma | ⟨piece, hpiece, hmem⟩
  · exact absurd hcomma (by decide)
  · rcases List.mem_cons.mp hpiece with rfl | htoken
    · exact h.name.2 hmem
    · obtain ⟨t, ht, rfl⟩ := List.mem_map.mp htoken
      exact (h.options t ht).2.2 hmem

theorem Plain.named_segment (h : op.Plain) : Descriptor.Named op.segment := by
  rw [Descriptor.named_iff, Descriptor.segmentName_of_pieces h.pieces_segment]
  exact mt String.toList_eq_nil_iff.mp h.named

theorem Plain.spells (h : op.Plain) : Descriptor.Spells op.segment op := by
  refine ⟨op.options.map String.toList, Text.separated_iff.mpr h.pieces_segment.symm, ?_⟩
  refine (List.filter_eq_self.mpr ?_).symm
  intro piece hpiece
  obtain ⟨t, ht, rfl⟩ := List.mem_map.mp hpiece
  simpa using (h.options t ht).1

theorem pieces_textOf (hsome : ops ≠ []) (h : ∀ op ∈ ops, op.Plain) :
    Text.pieces '/' (textOf ops).toList = ops.map segment := by
  rw [textOf, String.toList_ofList]
  apply Text.pieces_joinWith (by simpa using hsome)
  intro piece hpiece
  obtain ⟨op, hop, rfl⟩ := List.mem_map.mp hpiece
  exact (h op hop).slash_notMem_segment

end Operation

namespace Descriptor

variable {op : Operation} {ops : List Operation}

theorem readSegment_segment (h : op.Plain) (index : Nat) :
    readSegment index op.segment = .ok op := by
  rcases readSegment_cases index op.segment with ⟨e, -, hoffends⟩ | ⟨-, op', hread, hspells⟩
  · exact absurd h.named_segment hoffends.not_named
  · rw [hread, Spells.right_unique hspells h.spells]

theorem readSegments_segments (h : ∀ op ∈ ops, op.Plain) (index : Nat) (d : Descriptor) :
    readSegments index (ops.map Operation.segment) d = .ok (ops.foldl add d) := by
  induction ops generalizing index d with
  | nil => rfl
  | cons op ops ih =>
    obtain ⟨hop, hops⟩ := List.forall_mem_cons.mp h
    rw [List.map_cons, readSegments_cons_ok (readSegment_segment hop index), ih hops]
    rfl

theorem parse_textOf (hsome : ops ≠ []) (h : ∀ op ∈ ops, op.Plain) :
    parse (Operation.textOf ops) = .ok (ops.foldl add {}) := by
  have hpieces := Operation.pieces_textOf hsome h
  have hne : Operation.textOf ops ≠ "" := by
    intro hempty
    rw [hempty] at hpieces
    have hmem : [] ∈ ops.map Operation.segment := hpieces ▸ List.mem_singleton_self []
    obtain ⟨op, hop, hsegment⟩ := List.mem_map.mp hmem
    exact (h op hop).segment_ne_nil hsegment
  rw [parse_of_ne hne, hpieces]
  exact readSegments_segments h 0 {}

/-- Operations without a place of their own stay in their order. -/
theorem foldl_add (h : ∀ op ∈ ops, op.name ≠ "info" ∧ op.name ≠ "format") (d : Descriptor) :
    ops.foldl add d = { d with operations := d.operations ++ ops } := by
  induction ops generalizing d with
  | nil => simp
  | cons op ops ih =>
    obtain ⟨⟨hinfo, hformat⟩, hops⟩ := List.forall_mem_cons.mp h
    rw [List.foldl_cons, ih hops, add_eq]
    simp [hinfo, hformat]

/-! ### The namespace -/

theorem stripNamespace_append (text : String) : stripNamespace (namespaceText ++ text) = text := by
  have hhere : namespaceText.toList.isPrefixOf (namespaceText ++ text).toList = true := by
    simp
  rw [stripNamespace, if_pos hhere, String.toList_append, List.drop_left, String.ofList_toList]

theorem stripNamespace_textOf (hsome : ops ≠ []) (h : ∀ op ∈ ops, op.Plain)
    (hname : ∀ op ∈ ops, op.name ≠ "image") :
    stripNamespace (Operation.textOf ops) = Operation.textOf ops := by
  rw [stripNamespace, if_neg]
  intro hhere
  -- a text with the namespace in front has `image` for its first segment
  obtain ⟨rest, hrest⟩ := List.isPrefixOf_iff_prefix.mp hhere
  have hpieces := Operation.pieces_textOf hsome h
  have hslash : '/' ∉ "image".toList := by decide
  have hfirst : Text.pieces '/' (namespaceText.toList ++ rest)
      = "image".toList :: Text.pieces '/' rest := Text.pieces_append_cons hslash rest
  rw [← hrest, hfirst] at hpieces
  obtain ⟨op, hop, hsegment⟩ := List.mem_map.mp (hpieces ▸ List.mem_cons_self)
  have hsplit := (h op hop).pieces_segment
  rw [hsegment, Text.pieces_of_notMem (by decide), List.cons.injEq] at hsplit
  exact hname op hop (String.toList_inj.mp hsplit.1.symm)

end Descriptor

end ImagePipeline
