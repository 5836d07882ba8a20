import ImagePipeline.Pipeline.Pixels
import ImagePipeline.Proofs.Pipeline.Lifecycle
import ImagePipeline.Proofs.Pipeline.Reading

/-!
# Refused descriptors

Whether a descriptor is refused, and why, is a matter of the descriptor alone: the first operation
that is refused gives the error, and the format is looked at when all operations are understood
(`Descriptor.Refused`). The image, the backend, the cancellation and even the settings have no part
in it. So a run decodes its source exactly when the descriptor has been understood and the request
is not cancelled by then (`process_reads_first`).
-/

namespace ImagePipeline

/-! ### One operation -/

namespace Operation

/-- Nothing is wrong with the operation. -/
def Understood (op : Operation) : Prop := ∀ e, ¬ op.Refused e

variable {settings : Settings} {op : Operation} {ops : List Operation} {e : ProcessError}

theorem understood_iff (settings : Settings) :
    op.Understood ↔ ∃ step, op.step settings = .ok step := by
  cases hstep : op.step settings with
  | ok step =>
    refine ⟨fun _ => ⟨step, rfl⟩, ?_⟩
    intro _ e hrefused
    rw [step_error_iff.mpr hrefused] at hstep
    cases hstep
  | error e =>
    constructor
    · intro hunderstood
      exact absurd (step_error_iff.mp hstep) (hunderstood e)
    · rintro ⟨step, h⟩
      cases h

/-! ### Operations in a row -/

/-- The first operation that is refused, those before it being understood, is refused with this
error; those behind it may be anything. -/
def FirstRefused (ops : List Operation) (e : ProcessError) : Prop :=
  ∃ before op after, ops = before ++ op :: after ∧ (∀ o ∈ before, o.Understood) ∧ op.Refused e

theorem firstRefused_cons :
    FirstRefused (op :: ops) e ↔ op.Refused e ∨ op.Understood ∧ FirstRefused ops e :=
  split_cons_iff (P := Understood) (Q := fun _ op => op.Refused e)

theorem steps_error_iff : Operation.steps settings ops = .error e ↔ FirstRefused ops e := by
  induction ops with
  | nil =>
    constructor
    · intro h
      cases h
    · rintro ⟨before, op, after, hsplit, -⟩
      cases before <;> cases hsplit
  | cons op rest ih =>
    rw [firstRefused_cons]
    constructor
    · intro h
      rcases bind_error h with hstep | ⟨step, hstep, htail⟩
      · exact .inl (step_error_iff.mp hstep)
      · rcases bind_error htail with hrest | ⟨others, -, hall⟩
        · exact .inr ⟨(understood_iff settings).mpr ⟨step, hstep⟩, ih.mp hrest⟩
        · cases hall
    · rintro (hrefused | ⟨hunderstood, hrest⟩)
      · simp only [Operation.steps, step_error_iff.mpr hrefused]
        rfl
      · obtain ⟨step, hstep⟩ := (understood_iff settings).mp hunderstood
        simp only [Operation.steps, hstep, ih.mpr hrest]
        rfl

theorem steps_ok_iff (settings : Settings) :
    (∃ steps, Operation.steps settings ops = .ok steps) ↔ ∀ op ∈ ops, op.Understood := by
  induction ops with
  | nil => exact ⟨fun _ => List.forall_mem_nil _, fun _ => ⟨[], rfl⟩⟩
  | cons op rest ih =>
    rw [List.forall_mem_cons, understood_iff settings, ← ih]
    constructor
    · rintro ⟨steps, h⟩
      obtain ⟨step, hstep, htail⟩ := bind_ok h
      obtain ⟨others, hrest, -⟩ := bind_ok htail
      exact ⟨⟨step, hstep⟩, others, hrest⟩
    · rintro ⟨⟨step, hstep⟩, others, hrest⟩
      refine ⟨step :: others, ?_⟩
      simp only [Operation.steps, hstep, hrest]
      rfl

end Operation

/-! ### Descriptors -/

/-- A descriptor that was cut up is refused. Nothing is refused beside `info`. -/
inductive Descriptor.Refused (d : Descriptor) : ProcessError → Prop where
  | operation {e : ProcessError} (asked : d.info = false)
      (first : Operation.FirstRefused d.operations e) : Refused d e
  | format {op : Operation} {e : OptionError} (asked : d.info = false)
      (understood : ∀ o ∈ d.operations, o.Understood) (named : d.format = some op)
      (refused : OutputFormat.parse op = .error e) : Refused d e.toProcessError

theorem Descriptor.plan_error_iff {settings : Settings} {d : Descriptor} {e : ProcessError} :
    d.plan settings = .error e ↔ d.Refused e := by
  constructor
  · intro h
    unfold plan at h
    split at h
    · cases h
    · rename_i hinfo
      have hasked : d.info = false := Bool.not_eq_true _ ▸ hinfo
      rcases bind_error h with hsteps | ⟨steps, hsteps, hformat⟩
      · exact .operation hasked (Operation.steps_error_iff.mp hsteps)
      · have hunderstood := (Operation.steps_ok_iff settings).mp ⟨steps, hsteps⟩
        rcases bind_error hformat with houtput | ⟨output, -, hrequest⟩
        · unfold outputFormat at houtput
          split at houtput
          · cases houtput
          · rename_i op hnamed
            rcases bind_error houtput with hparse | ⟨_, -, hok⟩
            · obtain ⟨refusal, hrefusal, rfl⟩ := OptionError.lift_error_iff.mp hparse
              exact .format hasked hunderstood hnamed hrefusal
            · cases hok
        · cases hrequest
  · intro h
    cases h with
    | operation asked first =>
      simp only [plan, asked, Operation.steps_error_iff.mpr first, Bool.false_eq_true, if_false]
      rfl
    | format asked understood named refused =>
      obtain ⟨steps, hsteps⟩ := (Operation.steps_ok_iff settings).mpr understood
      simp only [plan, asked, hsteps, outputFormat, named, refused, Bool.false_eq_true, if_false]
      rfl

/-! ### Runs -/

section

variable {settings : Settings} {descriptor : String} {d : Descriptor}

theorem Request.read_of_unparsed {e : DescriptorError}
    (h : Descriptor.parse (Descriptor.stripNamespace descriptor) = .error e) :
    read settings descriptor = .error (.ofDescriptor e) := by
  simp only [read, h]

theorem Request.read_of_parsed
    (h : Descriptor.parse (Descriptor.stripNamespace descriptor) = .ok d) :
    read settings descriptor = d.plan settings := by
  simp only [read, h]

theorem Request.read_ok_iff :
    (∃ request, read settings descriptor = .ok request) ↔
      ∃ d request, Descriptor.parse (Descriptor.stripNamespace descriptor) = .ok d ∧
        d.plan settings = .ok request := by
  cases hparse : Descriptor.parse (Descriptor.stripNamespace descriptor) with
  | error e =>
    rw [read_of_unparsed hparse]
    simp only [reduceCtorEq, exists_false, false_and]
  | ok d =>
    rw [read_of_parsed hparse]
    constructor
    · rintro ⟨request, hplan⟩
      exact ⟨d, request, rfl, hplan⟩
    · rintro ⟨_, request, hsame, hplan⟩
      cases hsame
      exact ⟨request, hplan⟩

end

section

variable {σ : Type} [Scale σ] {B : Backend σ} {settings : Settings} {interruption : Interruption σ}
  {source : ByteArray} {descriptor : String}

theorem Lifecycle.loads_iff {U : B.Undisturbed} {run : Run B}
    (h : Lifecycle U settings interruption source descriptor run) :
    (∃ bytes, .load bytes ∈ run.calls) ↔
      (∃ request, Request.read settings descriptor = .ok request) ∧
        interruption.atStart = false := by
  cases h with
  | unreadable refused =>
    simp only [refused, List.not_mem_nil, reduceCtorEq, exists_false, false_and]
  | cancelled _ atStart =>
    simp only [atStart, List.not_mem_nil, reduceCtorEq, exists_false, and_false]
  | undecodable read started _ => exact ⟨fun _ => ⟨⟨_, read⟩, started⟩, fun _ => ⟨_, .head _⟩⟩
  | opened read started _ _ _ => exact ⟨fun _ => ⟨⟨_, read⟩, started⟩, fun _ => ⟨_, .head _⟩⟩

theorem process_of_unread {e : ProcessError} (h : Request.read settings descriptor = .error e) :
    process B settings interruption source descriptor = ⟨[], .error e⟩ := by
  simp only [process, h]

end

/-- A run decodes its source exactly when the descriptor has been cut up and planned and the request
is not cancelled by then. A descriptor that is refused is refused without any call and always with
the same error, which is that of the first operation that is refused, or of the format. -/
theorem process_reads_first {σ : Type} [Scale σ] (B : Backend σ) (settings : Settings)
    (interruption : Interruption σ) (source : ByteArray) (descriptor : String) :
    let run := process B settings interruption source descriptor
    let parsed := Descriptor.parse (Descriptor.stripNamespace descriptor)
    ((∃ bytes, .load bytes ∈ run.calls) ↔
      (∃ d request, parsed = .ok d ∧ d.plan settings = .ok request) ∧
        interruption.atStart = false) ∧
      (∀ e, parsed = .error e → run = ⟨[], .error (.ofDescriptor e)⟩) ∧
      ∀ d, parsed = .ok d → ∀ e, (d.plan settings = .error e ↔ d.Refused e) ∧
        (d.Refused e → run = ⟨[], .error e⟩) := by
  intro run parsed
  have hlife := process_follows B.undisturbed settings interruption source descriptor
  refine ⟨?_, ?_, ?_⟩
  · rw [← Request.read_ok_iff]
    exact hlife.loads_iff
  · intro e hparse
    exact process_of_unread (Request.read_of_unparsed hparse)
  · intro d hparse e
    refine ⟨Descriptor.plan_error_iff, ?_⟩
    intro hrefused
    have hplan : d.plan settings = .error e := Descriptor.plan_error_iff.mpr hrefused
    exact process_of_unread ((Request.read_of_parsed hparse).trans hplan)

/-- An unknown operation wins over a request that is cancelled and a source that is empty; the
missing name of the format is not looked at. -/
theorem process_reads_first_of_sharpen :
    process (pixels {}) {} ({ atStart := true } : Interruption Rat) ⟨#[]⟩
      "resize,w_5/sharpen,100/format" = ⟨[], .error (.unknownOperation "sharpen")⟩ := by
  let resize : Operation := ⟨"resize", ["w_5"]⟩
  let sharpen : Operation := ⟨"sharpen", ["100"]⟩
  let d : Descriptor := { operations := [resize, sharpen], format := some ⟨"format", []⟩ }
  have hparse : Descriptor.parse (Descriptor.stripNamespace "resize,w_5/sharpen,100/format")
      = .ok d := by rfl
  have hresize : resize.Understood :=
    (Operation.understood_iff {}).mpr ⟨.resize { w := 5 }, by rfl⟩
  have hsharpen : sharpen.Refused (.unknownOperation "sharpen") :=
    .unknown (by decide) (by decide) (by decide)
  have hrefused : d.Refused (.unknownOperation "sharpen") :=
    .operation rfl ⟨[resize], sharpen, [], rfl, List.forall_mem_singleton.mpr hresize, hsharpen⟩
  obtain ⟨-, -, hplanning⟩ := process_reads_first (pixels {}) {}
    ({ atStart := true } : Interruption Rat) ⟨#[]⟩ "resize,w_5/sharpen,100/format"
  exact (hplanning d hparse _).2 hrefused

end ImagePipeline
