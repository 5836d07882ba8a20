import ImagePipeline.Proofs.Text.Segments

/-!
# Descriptors written again

What was cut out of a text holds no separator, so the operations of a descriptor that was parsed can
be told from the text around them (`Descriptor.parse_plain`). Written again they are read again, and
what is left behind is only what had no place among them: the flag, the format and the empty tokens
(`Descriptor.parse_written_again`).
-/

namespace ImagePipeline.Descriptor

variable {segment : List Char} {op : Operation} {text : String} {d : Descriptor}

theorem Spells.plain (hspells : Spells segment op) (hnamed : Named segment)
    (hslash : '/' ∉ segment) : op.Plain := by
  have hname := hspells.name
  obtain ⟨tokens, hseparated, hkept⟩ := hspells
  have hunbroken {t : String} (ht : t.toList ∈ op.name.toList :: tokens) :
      Operation.Unbroken t := by
    refine ⟨hseparated.unbroken _ ht, ?_⟩
    intro hc
    exact hslash (hseparated.joined ▸ Text.mem_joinWith_of_mem ht hc)
  constructor
  case named =>
    intro hempty
    rw [hempty] at hname
    exact named_iff.mp hnamed hname
  case name => exact hunbroken List.mem_cons_self
  case options =>
    intro t ht
    have htold : t.toList ∈ tokens.filter fun token => token ≠ [] :=
      hkept ▸ List.mem_map_of_mem ht
    simp only [List.mem_filter, ne_eq, decide_eq_true_eq, String.toList_eq_nil_iff] at htold
    exact ⟨htold.2, hunbroken (List.mem_cons_of_mem _ htold.1)⟩

/-- The operations of a descriptor that was parsed can stand in a descriptor, and keep their place
there. -/
theorem parse_plain (h : parse text = .ok d) (hop : op ∈ d.operations) :
    op.Plain ∧ op.name ≠ "info" ∧ op.name ≠ "format" := by
  obtain ⟨segment, hordinary, hspells⟩ := exists_of_forall₂ (parse_files h).operations hop
  rw [List.mem_filter] at hordinary
  obtain ⟨hsegment, hordinary⟩ := hordinary
  have hnamed : Named segment := (parse_ok_iff.mp ⟨d, h⟩).2 segment hsegment
  simp only [isOrdinary, hspells.name, ne_eq, String.toList_inj, decide_eq_true_eq] at hordinary
  exact ⟨hspells.plain hnamed (Text.notMem_of_mem_pieces hsegment), hordinary⟩

/-- A descriptor that was parsed and has operations is parsed again when it is written: into the
same operations in the same order, without `info` and without a format, and written once more it
gives the same text. Without operations nothing is written, and nothing is no descriptor. -/
theorem parse_written_again (hparse : parse text = .ok d) :
    (d.operations ≠ [] → ∃ d', parse d.toText = .ok d' ∧ d'.operations = d.operations ∧
      d'.info = false ∧ d'.format = none ∧ d'.toText = d.toText) ∧
      (d.operations = [] → d.toText = "" ∧ ∀ d', parse d.toText ≠ .ok d') := by
  refine ⟨?_, ?_⟩
  · intro hsome
    have hplain : ∀ op ∈ d.operations, op.Plain := fun op hop => (parse_plain hparse hop).1
    have hread := parse_textOf hsome hplain
    rw [foldl_add fun op hop => (parse_plain hparse hop).2, List.nil_append] at hread
    exact ⟨_, hread, rfl, rfl, rfl, rfl⟩
  · intro hnone
    have hempty : d.toText = "" := by
      rw [toText, hnone]
      rfl
    refine ⟨hempty, ?_⟩
    intro d' hread
    exact (parse_ok_iff.mp ⟨d', hread⟩).1 hempty

/-- A format, a flag, empty tokens and a token that is no key and value stand in the first text; in
the second there is nothing else. -/
theorem parse_written_again_of_mixed :
    let d : Descriptor :=
      { operations := [⟨"resize", ["w_200", "m_pad"]⟩, ⟨"sharpen", []⟩, ⟨"blur", ["bare", "s_2"]⟩],
        format := some ⟨"format", ["png"]⟩, info := true }
    let rest : Descriptor := { format := some ⟨"format", []⟩, info := true }
    (parse "resize,,w_200,m_pad,/info,x/sharpen/format,png/blur,bare,s_2" = .ok d ∧
      parse d.toText = .ok { operations := d.operations } ∧
      d.toText = "resize,w_200,m_pad/sharpen/blur,bare,s_2") ∧
    (parse "info/format" = .ok rest ∧ rest.toText = "" ∧ ∀ d', parse rest.toText ≠ .ok d') := by
  intro d rest
  have hparse : parse "resize,,w_200,m_pad,/info,x/sharpen/format,png/blur,bare,s_2" = .ok d := by
    rfl
  have hrest : parse "info/format" = .ok rest := by rfl
  have hagain := (parse_written_again hparse).1 (by simp [d])
  refine ⟨⟨hparse, ?_, rfl⟩, hrest, (parse_written_again hrest).2 rfl⟩
  obtain ⟨⟨operations, format, info⟩, hread, hoperations, hinfo, hformat, -⟩ := hagain
  cases hoperations
  cases hinfo
  cases hformat
  exact hread

end ImagePipeline.Descriptor
