import ImagePipeline.Proofs.Options.Resize
import ImagePipeline.Proofs.Options.Watermark
import ImagePipeline.Proofs.Pipeline.Reading
import ImagePipeline.Proofs.Text.Segments
import Mathlib.Data.List.Forall2

/-!
# Steps written and read back

Every list of steps can be written as a descriptor, and what was written is what is read
(`Request.read_written`). A writer may put the tokens of a step in any order, may repeat them and
may leave out those that go without saying (`StepChoice.Written`); the format may stand between any
two steps.
-/

namespace ImagePipeline

namespace StepChoice

/-- The options meet the rule for their kind, and no padding is too much. -/
def Proper : StepChoice → Prop
  | resize o => o.Proper
  | watermark o k => o.Proper ∧ k ≤ Base64.fullPadding o.text.utf8ByteSize

inductive Written : StepChoice → Operation → Prop where
  | resize {o : ResizeOptions} {options : List String}
      (told : Options.Tells options o.tokens ({} : ResizeOptions).tokens) :
      Written (.resize o) ⟨"resize", options⟩
  | watermark {o : WatermarkOptions} {k : Nat} {options : List String}
      (told : Options.Tells options (o.tokens k) (({} : WatermarkOptions).tokens k)) :
      Written (.watermark o k) ⟨"watermark", options⟩

variable {choice : StepChoice} {op : Operation}

theorem written_toOperation (choice : StepChoice) : Written choice choice.toOperation := by
  cases choice with
  | resize o => exact .resize (Options.tells_all _ _)
  | watermark o k => exact .watermark (Options.tells_all _ _)

theorem Written.step_eq (h : Written choice op) (hproper : choice.Proper) (settings : Settings) :
    op.step settings = .ok (choice.step settings) := by
  apply Operation.step_ok_iff.mpr
  cases h with
  | resize told => exact .resize rfl (ResizeOptions.parse_of_tells hproper told)
  | watermark told =>
    exact .watermark rfl (WatermarkOptions.parse_of_tells hproper.1 hproper.2 told)

theorem Written.name_cases (h : Written choice op) :
    op.name = "resize" ∨ op.name = "watermark" := by
  cases h with
  | resize => exact .inl rfl
  | watermark => exact .inr rfl

theorem Written.name_ne (h : Written choice op) {name : String} (hresize : name ≠ "resize")
    (hwatermark : name ≠ "watermark") : op.name ≠ name := by
  rintro rfl
  rcases h.name_cases with hname | hname
  · exact hresize hname
  · exact hwatermark hname

theorem Written.unbroken (h : Written choice op) {t : String} (ht : t ∈ op.options) :
    t ≠ "" ∧ Operation.Unbroken t := by
  cases h with
  | resize told =>
    obtain ⟨key, value, -, rfl⟩ := ResizeOptions.mem_tokens.mp (told.1 ht)
    exact ⟨Operation.token_ne_empty key value, ResizeOptions.unbroken_of_mem_tokens (told.1 ht)⟩
  | watermark told =>
    obtain ⟨key, value, -, rfl⟩ := WatermarkOptions.mem_tokens.mp (told.1 ht)
    exact ⟨Operation.token_ne_empty key value, WatermarkOptions.unbroken_of_mem_tokens (told.1 ht)⟩

theorem Written.plain (h : Written choice op) : op.Plain where
  named := by rcases h.name_cases with hname | hname <;> rw [hname] <;> decide
  name := by rcases h.name_cases with hname | hname <;> rw [hname] <;> decide
  options := fun _ => h.unbroken

theorem steps_written {choices : List StepChoice} {ops : List Operation}
    (h : List.Forall₂ Written choices ops) (hproper : ∀ choice ∈ choices, choice.Proper)
    (settings : Settings) :
    Operation.steps settings ops = .ok (choices.map (step settings)) := by
  induction h with
  | nil => rfl
  | cons hwritten _ ih =>
    obtain ⟨hfirst, hrest⟩ := List.forall_mem_cons.mp hproper
    rw [Operation.steps, hwritten.step_eq hfirst, ih hrest]
    rfl

theorem exists_written {choices : List StepChoice} {ops : List Operation}
    (h : List.Forall₂ Written choices ops) (hop : op ∈ ops) : ∃ choice, Written choice op := by
  obtain ⟨choice, -, hwritten⟩ := exists_of_forall₂ h hop
  exact ⟨choice, hwritten⟩

end StepChoice

/-! ### The format between the steps -/

namespace OutputFormat

theorem ofName_name (format : OutputFormat) : ofName format.name = format := by
  cases format <;> decide

theorem plain_toOperation (format : OutputFormat) : format.toOperation.Plain where
  named := by cases format <;> decide
  name := by cases format <;> decide
  options := by cases format <;> decide

theorem parse_toOperation (format : OutputFormat) : parse format.toOperation = .ok format := by
  have hname : format.name.isEmpty = false := by cases format <;> decide
  show (if format.name.isEmpty then _ else _) = _
  simp only [hname, ofName_name, Bool.false_eq_true, if_false]

end OutputFormat

/-- A format between ordinary operations is kept apart, and the operations keep their order. -/
theorem Descriptor.foldl_add_format {before after : List Operation}
    (h : ∀ op ∈ before ++ after, op.name ≠ "info" ∧ op.name ≠ "format")
    (format : Option OutputFormat) :
    (before ++ (format.map OutputFormat.toOperation).toList ++ after).foldl add {}
      = { operations := before ++ after, format := format.map OutputFormat.toOperation } := by
  have hbefore := fun op hop => h op (List.mem_append_left after hop)
  have hafter := fun op hop => h op (List.mem_append_right before hop)
  rw [List.foldl_append, List.foldl_append, foldl_add hbefore, foldl_add hafter]
  cases format <;> rfl

theorem Descriptor.outputFormat_toOperation (ops : List Operation) (format : Option OutputFormat) :
    outputFormat { operations := ops, format := format.map OutputFormat.toOperation }
      = .ok format := by
  cases format with
  | none => rfl
  | some format =>
    simp only [outputFormat, Option.map_some, OutputFormat.parse_toOperation]
    rfl

/-! ### The whole descriptor -/

section
variable {choices : List StepChoice} {before after : List Operation}

/-- The segments of the steps, with that of the format among them. -/
def Operation.withFormat (before after : List Operation) (format : Option OutputFormat) :
    List Operation :=
  before ++ (format.map OutputFormat.toOperation).toList ++ after

theorem Operation.mem_withFormat (h : List.Forall₂ StepChoice.Written choices (before ++ after))
    {format : Option OutputFormat} {op : Operation} (hop : op ∈ withFormat before after format) :
    op.Plain ∧ op.name ≠ "image" := by
  simp only [withFormat, List.mem_append, Option.mem_toList, Option.map_eq_some_iff] at hop
  rcases hop with (hbefore | ⟨f, -, rfl⟩) | hafter
  · obtain ⟨choice, hchoice⟩ :=
      StepChoice.exists_written h (List.mem_append_left after hbefore)
    exact ⟨hchoice.plain, hchoice.name_ne (by decide) (by decide)⟩
  · have hname : f.toOperation.name = "format" := rfl
    refine ⟨f.plain_toOperation, ?_⟩
    rw [hname]
    decide
  · obtain ⟨choice, hchoice⟩ :=
      StepChoice.exists_written h (List.mem_append_right before hafter)
    exact ⟨hchoice.plain, hchoice.name_ne (by decide) (by decide)⟩

theorem Operation.withFormat_ne_nil (h : List.Forall₂ StepChoice.Written choices (before ++ after))
    (hsome : choices ≠ []) (format : Option OutputFormat) :
    withFormat before after format ≠ [] := by
  intro hnone
  simp only [withFormat, List.append_eq_nil_iff] at hnone
  rw [hnone.1.1, hnone.2] at h
  exact hsome (List.forall₂_nil_right_iff.mp h)

theorem Descriptor.parse_written (h : List.Forall₂ StepChoice.Written choices (before ++ after))
    (hsome : choices ≠ []) (format : Option OutputFormat) :
    parse (Operation.textOf (Operation.withFormat before after format))
      = .ok { operations := before ++ after, format := format.map OutputFormat.toOperation } := by
  have hordinary : ∀ op ∈ before ++ after, op.name ≠ "info" ∧ op.name ≠ "format" := by
    intro op hop
    obtain ⟨choice, hchoice⟩ := StepChoice.exists_written h hop
    exact ⟨hchoice.name_ne (by decide) (by decide), hchoice.name_ne (by decide) (by decide)⟩
  rw [parse_textOf (Operation.withFormat_ne_nil h hsome format)
    fun op hop => (Operation.mem_withFormat h hop).1]
  exact congrArg Except.ok (foldl_add_format hordinary format)

theorem Descriptor.plan_written (h : List.Forall₂ StepChoice.Written choices (before ++ after))
    (hproper : ∀ choice ∈ choices, choice.Proper) (settings : Settings)
    (format : Option OutputFormat) :
    plan settings { operations := before ++ after, format := format.map OutputFormat.toOperation }
      = .ok (.transform (choices.map (StepChoice.step settings)) format) := by
  simp only [plan, Bool.false_eq_true, if_false, StepChoice.steps_written h hproper settings,
    outputFormat_toOperation]
  rfl

end

/-- Every list of proper steps can be written, and whatever is written for it is read as these steps
and no others, in their order, with the format that stands between them. -/
theorem Request.read_written (settings : Settings) {choices : List StepChoice}
    (hsome : choices ≠ []) (hproper : ∀ choice ∈ choices, choice.Proper) :
    List.Forall₂ StepChoice.Written choices (choices.map StepChoice.toOperation) ∧
    (∀ before after format, List.Forall₂ StepChoice.Written choices (before ++ after) →
      let text := Operation.textOf (Operation.withFormat before after format)
      let request := Request.transform (choices.map (StepChoice.step settings)) format
      read settings text = .ok request ∧
        read settings (Descriptor.namespaceText ++ text) = .ok request) ∧
    ∀ o k, .watermark o k ∈ choices →
      let angle := (o.toParams settings.dpi settings.margin).rotate.toInt
      angle % 360 = o.rotate.toInt % 360 ∧ -360 ≤ angle ∧ angle ≤ -1 := by
  refine ⟨?_, ?_, ?_⟩
  · rw [List.forall₂_map_right_iff, List.forall₂_same]
    exact fun choice _ => choice.written_toOperation
  · intro before after format hwritten text request
    have hparse := Descriptor.parse_written hwritten hsome format
    have hplan := Descriptor.plan_written hwritten hproper settings format
    have halone : Descriptor.stripNamespace text = text :=
      Descriptor.stripNamespace_textOf (Operation.withFormat_ne_nil hwritten hsome format)
        (fun op hop => (Operation.mem_withFormat hwritten hop).1)
        fun op hop => (Operation.mem_withFormat hwritten hop).2
    refine ⟨?_, ?_⟩
    · rw [read, halone, hparse]
      exact hplan
    · rw [read, Descriptor.stripNamespace_append, hparse]
      exact hplan
  · intro o k _
    exact o.turn_congr

/-- A resize and a watermark with the format between them; the text has an underscore in base64 and
one of its two padding bytes, and only what is out of the ordinary is told. -/
theorem Request.read_written_of_orange :
    let frame : ResizeOptions := { w := 200, mode := .pad, colour := some ⟨255, 128, 0⟩ }
    let stamp : WatermarkOptions := { text := "???!", rotate := -725, t := 50 }
    (frame.Proper ∧ stamp.Proper ∧ 1 ≤ Base64.fullPadding stamp.text.utf8ByteSize) ∧
      read {} ("image/resize,m_pad,w_200,color_ff8000/format,webp/" ++
        "watermark,rotate_-725,text_Pz8_IQ=,t_50")
        = .ok (.transform [.resize frame, .watermark (stamp.toParams 72 20)] (some .webp)) ∧
      (stamp.toParams 72 20).rotate.toInt % 360 = -725 % 360 := by
  intro frame stamp
  let choices : List StepChoice := [.resize frame, .watermark stamp 1]
  let before : List Operation := [⟨"resize", ["m_pad", "w_200", "color_ff8000"]⟩]
  let after : List Operation := [⟨"watermark", ["rotate_-725", "text_Pz8_IQ=", "t_50"]⟩]
  have hframe : frame.Proper := ⟨by decide, by decide⟩
  have hstamp : stamp.Proper := ⟨by decide, by decide, by decide, by decide, by decide⟩
  have hpadding : 1 ≤ Base64.fullPadding stamp.text.utf8ByteSize := by decide
  have hbytes : "???!".toUTF8.toList = [63, 63, 63, 33] := by
    rw [Text.toList_eq_data]
    rfl
  have htext : WatermarkOptions.encodeText 1 "???!" = "Pz8_IQ=" := by
    rw [WatermarkOptions.encodeText, hbytes]
    rfl
  have htokens : stamp.tokens 1 =
      ["text_Pz8_IQ=", "t_50", "rotate_-725", "fill_0", "size_40", "color_000000"] := by
    rw [WatermarkOptions.tokens, htext]
    decide
  have hnothing : "".toUTF8.toList = [] := by
    rw [Text.toList_eq_data]
    rfl
  have husual : ({} : WatermarkOptions).tokens 1 =
      ["text_=", "t_100", "rotate_0", "fill_0", "size_40", "color_000000"] := by
    rw [WatermarkOptions.tokens, WatermarkOptions.encodeText, hnothing]
    decide
  have hwritten : List.Forall₂ StepChoice.Written choices (before ++ after) := by
    refine .cons (.resize ⟨by decide, by decide⟩) (.cons (.watermark ?_) .nil)
    rw [htokens, husual]
    exact ⟨by decide, by decide⟩
  have hproper : ∀ choice ∈ choices, choice.Proper := by
    intro choice hchoice
    simp only [choices, List.mem_cons, List.not_mem_nil, or_false] at hchoice
    rcases hchoice with rfl | rfl
    · exact hframe
    · exact ⟨hstamp, hpadding⟩
  have hdescriptor : Descriptor.namespaceText
        ++ Operation.textOf (Operation.withFormat before after (some .webp))
      = "image/resize,m_pad,w_200,color_ff8000/format,webp/" ++
        "watermark,rotate_-725,text_Pz8_IQ=,t_50" := by decide
  obtain ⟨-, hread, hangle⟩ := Request.read_written {} (List.cons_ne_nil _ _) hproper
  refine ⟨⟨hframe, hstamp, hpadding⟩, ?_, ?_⟩
  · rw [← hdescriptor]
    exact (hread before after (some .webp) hwritten).2
  · exact (hangle stamp 1 (by simp)).1

end ImagePipeline
