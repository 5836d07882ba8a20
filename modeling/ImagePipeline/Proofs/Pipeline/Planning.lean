import ImagePipeline.Proofs.Pipeline.Refusal
import ImagePipeline.Proofs.Text.Grammar

/-!
# All or nothing

A plan has a step for every operation or it is no plan (`Descriptor.plan_all_or_nothing`). What a
step says of its operation is the relation `Operation.Means`, and which operation is to blame when
there is no plan is `Operation.FirstRefused`; the format comes last, wherever it stands in the text,
and only the last format counts.
-/

namespace ImagePipeline

/-! ### Operations that can be read -/

namespace Operation

/-- The name is known and the options are understood. -/
inductive Readable (op : Operation) : Prop where
  | resize {o : ResizeOptions} (named : op.name = "resize")
      (parsed : ResizeOptions.parse op = .ok o)
  | watermark {o : WatermarkOptions} (named : op.name = "watermark")
      (parsed : WatermarkOptions.parse op = .ok o)
  | blur {o : BlurOptions} (named : op.name = "blur") (parsed : BlurOptions.parse op = .ok o)

variable {settings : Settings} {op : Operation} {ops : List Operation} {steps : List Step}

theorem readable_iff (settings : Settings) : op.Readable ↔ ∃ step, op.Means settings step := by
  constructor
  · intro h
    cases h with
    | resize named parsed => exact ⟨_, .resize named parsed⟩
    | watermark named parsed => exact ⟨_, .watermark named parsed⟩
    | blur named parsed => exact ⟨_, .blur named parsed⟩
  · rintro ⟨step, h⟩
    cases h with
    | resize named parsed => exact .resize named parsed
    | watermark named parsed => exact .watermark named parsed
    | blur named parsed => exact .blur named parsed

theorem understood_iff_readable : op.Understood ↔ op.Readable := by
  -- any settings will do, as they have no part in whether an operation is read
  rw [understood_iff {}, readable_iff {}]
  simp only [step_ok_iff]

theorem steps_eq_ok_iff :
    Operation.steps settings ops = .ok steps ↔ List.Forall₂ (Means settings) ops steps := by
  induction ops generalizing steps with
  | nil =>
    rw [List.forall₂_nil_left_iff]
    constructor
    · intro h
      cases h
      rfl
    · rintro rfl
      rfl
  | cons op rest ih =>
    rw [List.forall₂_cons_left_iff]
    constructor
    · intro h
      obtain ⟨first, hfirst, htail⟩ := bind_ok h
      obtain ⟨others, hothers, hall⟩ := bind_ok htail
      cases hall
      exact ⟨first, others, step_ok_iff.mp hfirst, ih.mp hothers, rfl⟩
    · rintro ⟨first, others, hfirst, hothers, rfl⟩
      rw [Operation.steps, step_ok_iff.mpr hfirst, ih.mpr hothers]
      rfl

/-- The first token of a format is there and names the encoder; a name that is not known means the
format of the source. -/
def NamesFormat (op : Operation) (format : OutputFormat) : Prop :=
  ∃ name rest, op.options = name :: rest ∧ name ≠ "" ∧ format = OutputFormat.ofName name

variable {format : OutputFormat}

theorem parse_format_ok_iff : OutputFormat.parse op = .ok format ↔ op.NamesFormat format := by
  obtain ⟨opName, options⟩ := op
  cases options with
  | nil => simp [OutputFormat.parse, NamesFormat]
  | cons name rest =>
    by_cases hname : name = "" <;>
      simp [OutputFormat.parse, NamesFormat, hname, eq_comm (b := format)]

theorem parse_format_error_iff {e : OptionError} : OutputFormat.parse op = .error e ↔
    (∀ format, ¬ op.NamesFormat format) ∧ e = .missing "format" := by
  obtain ⟨opName, options⟩ := op
  cases options with
  | nil => simp [OutputFormat.parse, NamesFormat, eq_comm]
  | cons name rest =>
    by_cases hname : name = "" <;>
      simp [OutputFormat.parse, NamesFormat, hname, eq_comm (b := e)]

end Operation

/-! ### Plans -/

namespace Descriptor

variable {settings : Settings} {d : Descriptor}

theorem outputFormat_ok_iff {output : Option OutputFormat} : d.outputFormat = .ok output ↔
    Option.Rel Operation.NamesFormat d.format output := by
  unfold outputFormat
  constructor
  · intro h
    split at h
    · rename_i hformat
      cases h
      rw [hformat]
      exact .none
    · rename_i op hformat
      obtain ⟨format, hparse, houtput⟩ := bind_ok h
      cases houtput
      rw [hformat]
      exact .some (Operation.parse_format_ok_iff.mp (OptionError.lift_ok hparse))
  · intro h
    cases hformat : d.format with
    | none =>
      rw [hformat] at h
      cases h
      rfl
    | some op =>
      rw [hformat] at h
      cases h with
      | some hnames =>
        simp only [Operation.parse_format_ok_iff.mpr hnames]
        rfl

theorem plan_ok_iff (hasked : d.info = false) {request : Request} :
    d.plan settings = .ok request ↔ ∃ steps output, request = .transform steps output ∧
      List.Forall₂ (Operation.Means settings) d.operations steps ∧
      Option.Rel Operation.NamesFormat d.format output := by
  simp only [plan, hasked, Bool.false_eq_true, if_false]
  constructor
  · intro h
    obtain ⟨steps, hsteps, htail⟩ := bind_ok h
    obtain ⟨output, houtput, hrequest⟩ := bind_ok htail
    cases hrequest
    exact ⟨steps, output, rfl, Operation.steps_eq_ok_iff.mp hsteps, outputFormat_ok_iff.mp houtput⟩
  · rintro ⟨steps, output, rfl, hsteps, houtput⟩
    rw [Operation.steps_eq_ok_iff.mpr hsteps, outputFormat_ok_iff.mpr houtput]
    rfl

/-- The format is not asked for, or has a name. -/
def FormatNamed (d : Descriptor) : Prop :=
  ∀ op, d.format = some op → ∃ format, op.NamesFormat format

theorem refused_iff (hasked : d.info = false) {e : ProcessError} :
    d.Refused e ↔ Operation.FirstRefused d.operations e ∨
      (∀ op ∈ d.operations, op.Readable) ∧ ¬ d.FormatNamed ∧
        e = .param "Missing required param: format" := by
  simp only [← Operation.understood_iff_readable, FormatNamed, not_forall, not_exists]
  constructor
  · intro h
    cases h with
    | operation _ first => exact .inl first
    | format _ understood named refused =>
      obtain ⟨hunnamed, rfl⟩ := Operation.parse_format_error_iff.mp refused
      exact .inr ⟨understood, ⟨_, named, hunnamed⟩, rfl⟩
  · rintro (hfirst | ⟨hunderstood, ⟨op, hnamed, hunnamed⟩, rfl⟩)
    · exact .operation hasked hfirst
    · exact .format hasked hunderstood hnamed
        (Operation.parse_format_error_iff.mpr ⟨hunnamed, rfl⟩)

theorem plan_exists_iff (hasked : d.info = false) : (∃ request, d.plan settings = .ok request) ↔
    (∀ op ∈ d.operations, op.Readable) ∧ d.FormatNamed := by
  simp only [← Operation.understood_iff_readable, ← Operation.steps_ok_iff settings]
  constructor
  · rintro ⟨request, hplan⟩
    obtain ⟨steps, output, -, hsteps, houtput⟩ := (plan_ok_iff hasked).mp hplan
    refine ⟨⟨steps, Operation.steps_eq_ok_iff.mpr hsteps⟩, ?_⟩
    intro op hop
    rw [hop] at houtput
    cases houtput with
    | some hnames => exact ⟨_, hnames⟩
  · rintro ⟨⟨steps, hsteps⟩, hformat⟩
    obtain ⟨output, houtput⟩ : ∃ output, Option.Rel Operation.NamesFormat d.format output := by
      cases hasks : d.format with
      | none => exact ⟨none, .none⟩
      | some op =>
        obtain ⟨format, hnames⟩ := hformat op hasks
        exact ⟨some format, .some hnames⟩
    exact ⟨_, (plan_ok_iff hasked).mpr
      ⟨steps, output, rfl, Operation.steps_eq_ok_iff.mp hsteps, houtput⟩⟩

/-! ### Formats with another behind them -/

section

variable {segment earlier : List Char} {before after others : List (List Char)}

theorem segmentName_of_isFormat (h : isFormat segment) : segmentName segment = "format".toList :=
  of_decide_eq_true h

theorem named_of_isFormat (h : isFormat segment) : Named segment := by
  rw [named_iff, segmentName_of_isFormat h]
  decide

theorem isOrdinary_of_isFormat (h : isFormat segment) : isOrdinary segment = false := by
  simp only [isOrdinary, segmentName_of_isFormat h]
  rfl

theorem not_info_of_isFormat (h : isFormat segment) : segmentName segment ≠ "info".toList := by
  rw [segmentName_of_isFormat h]
  decide

theorem alike_of_overwritten (hearlier : isFormat earlier)
    (hlater : ∃ later ∈ after, isFormat later) (hothers : ∀ other ∈ others, isFormat other) :
    Alike (before ++ others ++ after) (before ++ earlier :: after) := by
  constructor
  · have hnone : others.filter isOrdinary = [] := by
      rw [List.filter_eq_nil_iff]
      intro other hother
      rw [isOrdinary_of_isFormat (hothers other hother)]
      decide
    simp only [List.filter_append, List.filter_cons, isOrdinary_of_isFormat hearlier, hnone,
      List.append_nil, Bool.false_eq_true, if_false]
  · obtain ⟨later, hlater, hlast⟩ := hlater
    have hbehind : after.filter isFormat ≠ [] :=
      List.ne_nil_of_mem (List.mem_filter.mpr ⟨hlater, hlast⟩)
    have hany (front : List (List Char)) :
        ((front ++ after).filter isFormat).getLast? = (after.filter isFormat).getLast? := by
      rw [List.filter_append, List.getLast?_append_of_ne_nil _ hbehind]
    rw [List.append_cons before, hany, hany]
  · have hnone : ¬ ∃ other ∈ others, segmentName other = "info".toList := by
      rintro ⟨other, hother, hname⟩
      exact not_info_of_isFormat (hothers other hother) hname
    simp only [List.mem_append, List.mem_cons, or_and_right, exists_or, exists_eq_left, hnone,
      not_info_of_isFormat hearlier, or_false, false_or]

/-- Whatever formats stand in the place of one with another behind it, the descriptor is the
same. -/
theorem parse_of_overwritten {text : String} (hparse : parse text = .ok d)
    (hcut : Text.Separated '/' text.toList (before ++ earlier :: after))
    (hearlier : isFormat earlier) (hlater : ∃ later ∈ after, isFormat later)
    (hothers : ∀ other ∈ others, isFormat other ∧ '/' ∉ other) :
    parse (String.ofList (Text.joinWith '/' (before ++ others ++ after))) = .ok d := by
  have hpieces := Text.separated_iff.mp hcut
  have hplace {segment : List Char} (h : segment ∈ before ++ others ++ after) :
      segment ∈ before ++ earlier :: after ∨ segment ∈ others := by
    simp only [List.mem_append, List.mem_cons] at h ⊢
    tauto
  have hsome : before ++ others ++ after ≠ [] := by
    obtain ⟨later, hlater, -⟩ := hlater
    exact List.ne_nil_of_mem (List.mem_append_right _ hlater)
  have hnamed : ∀ segment ∈ before ++ others ++ after, Named segment := by
    intro segment hsegment
    rcases hplace hsegment with hmem | hmem
    · exact (parse_ok_iff.mp ⟨d, hparse⟩).2 segment (hpieces ▸ hmem)
    · exact named_of_isFormat (hothers segment hmem).1
  have hslash : ∀ segment ∈ before ++ others ++ after, '/' ∉ segment := by
    intro segment hsegment
    rcases hplace hsegment with hmem | hmem
    · exact hcut.unbroken segment hmem
    · exact (hothers segment hmem).2
  obtain ⟨d', hread, hfiles⟩ := parse_of_named hsome hnamed hslash
  rw [hread]
  exact congrArg Except.ok (hfiles.eq_of_alike (hpieces ▸ parse_files hparse)
    (alike_of_overwritten hearlier hlater fun other hother => (hothers other hother).1))

end

/-- Beside no `info`, there is a plan exactly when every operation is a resize, a watermark or a
blur whose options are understood and the format, if there is one, has a name. The plan has one step
for each operation, in their order, which is what the operation says. Otherwise the leftmost
operation that is refused gives the error, and the format gives it only if none is. A format with
another behind it has no part in the descriptor: the formats that stand in its place may be any. -/
theorem plan_all_or_nothing (settings : Settings) (hasked : d.info = false) :
    ((∃ request, d.plan settings = .ok request) ↔
      (∀ op ∈ d.operations, op.Readable) ∧ d.FormatNamed) ∧
    (∀ request, d.plan settings = .ok request ↔ ∃ steps output, request = .transform steps output ∧
      List.Forall₂ (Operation.Means settings) d.operations steps ∧
      Option.Rel Operation.NamesFormat d.format output) ∧
    (∀ e, d.plan settings = .error e ↔ Operation.FirstRefused d.operations e ∨
      (∀ op ∈ d.operations, op.Readable) ∧ ¬ d.FormatNamed ∧
        e = .param "Missing required param: format") ∧
    ∀ text before earlier after others, parse text = .ok d →
      Text.Separated '/' text.toList (before ++ earlier :: after) →
      isFormat earlier → (∃ later ∈ after, isFormat later) →
      (∀ other ∈ others, isFormat other ∧ '/' ∉ other) →
        parse (String.ofList (Text.joinWith '/' (before ++ others ++ after))) = .ok d := by
  exact ⟨plan_exists_iff hasked, fun _ => plan_ok_iff hasked,
    fun _ => plan_error_iff.trans (refused_iff hasked), fun _ _ _ _ _ => parse_of_overwritten⟩

/-- A format without a name counts for nothing before `webp`, and two others do no more; behind an
operation that is not known nothing else is looked at. -/
theorem plan_all_or_nothing_of_formats :
    let resize : Operation := ⟨"resize", ["w_5"]⟩
    let d : Descriptor := { operations := [resize], format := some ⟨"format", ["webp"]⟩ }
    let refused : Descriptor :=
      { operations := [resize, ⟨"sharpen", ["100"]⟩, ⟨"blur", []⟩],
        format := some ⟨"format", []⟩ }
    (d.info = false ∧ d.plan {} = .ok (.transform [.resize { w := 5 }] (some .webp)) ∧
      parse "format/resize,w_5/format,webp" = .ok d ∧
      parse "format,,/format,gif,x/resize,w_5/format,webp" = .ok d) ∧
    refused.info = false ∧ refused.plan {} = .error (.unknownOperation "sharpen") := by
  intro resize d refused
  obtain ⟨-, hplan, -, hoverwritten⟩ := plan_all_or_nothing {} (d := d) rfl
  obtain ⟨-, -, herror, -⟩ := plan_all_or_nothing {} (d := refused) rfl
  have hresize : ResizeOptions.parse resize = .ok { w := 5 } := by rfl
  have hread : resize.Readable := .resize rfl hresize
  have hparse : parse "format/resize,w_5/format,webp" = .ok d := by rfl
  refine ⟨⟨rfl, ?_, hparse, ?_⟩, rfl, ?_⟩
  · refine (hplan _).mpr ⟨_, _, rfl, .cons (.resize rfl hresize) .nil, .some ?_⟩
    exact ⟨"webp", [], rfl, by decide, by rfl⟩
  · exact hoverwritten "format/resize,w_5/format,webp" [] "format".toList
      ["resize,w_5".toList, "format,webp".toList] ["format,,".toList, "format,gif,x".toList] hparse
      (Text.separated_iff.mpr (by rfl)) (by decide) ⟨"format,webp".toList, by decide, by decide⟩
      (by decide)
  · refine (herror _).mpr (.inl ⟨[resize], ⟨"sharpen", ["100"]⟩, [⟨"blur", []⟩], rfl, ?_, ?_⟩)
    · exact List.forall_mem_singleton.mpr (Operation.understood_iff_readable.mpr hread)
    · exact .unknown (by decide) (by decide) (by decide)

end Descriptor

end ImagePipeline
