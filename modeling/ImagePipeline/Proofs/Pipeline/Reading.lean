import ImagePipeline.Pipeline.Request
import ImagePipeline.Proofs.Failures

/-!
# What reading a descriptor makes sure of

What the step of an operation is, and with which error there is none, follows from its name and its
options (`Operation.step_ok_iff`, `Operation.step_error_iff`).
Every step of a request that was read has options that can be used (`Request.read_sane`), and a
descriptor that cannot be read is never blamed on a backend (`Request.read_error`).
-/

namespace ImagePipeline

/-! ### Options -/

theorem ResizeOptions.settle_ok_iff {o settled : ResizeOptions} :
    o.settle = .ok settled ↔ o.preferBox = settled ∧ settled.hasTarget = true := by
  unfold settle
  dsimp only
  split
  · rename_i htarget
    rw [Except.ok.injEq]
    exact ⟨fun h => ⟨h, h ▸ htarget⟩, fun h => h.1⟩
  · rename_i hnone
    rw [iff_false_left (fun h => by cases h)]
    rintro ⟨rfl, htarget⟩
    exact hnone htarget

theorem ResizeOptions.hasTarget_of_parse {op : Operation} {o : ResizeOptions}
    (h : parse op = .ok o) : o.hasTarget = true := by
  obtain ⟨scanned, -, hsettle⟩ := bind_ok h
  exact (settle_ok_iff.mp hsettle).2

theorem BlurOptions.usable_iff {x : Float} : usable x = true ↔ x.isNaN = false ∧ ¬ x ≤ 0 := by
  simp only [usable, Bool.and_eq_true, Bool.not_eq_true', decide_eq_false_iff_not]

theorem BlurOptions.usable_of_parse {op : Operation} {o : BlurOptions} (h : parse op = .ok o) :
    usable o.sigma = true ∧ usable o.radius = true := by
  obtain ⟨scanned, -, hsettle⟩ := bind_ok h
  unfold settle at hsettle
  split at hsettle
  · rename_i husable
    cases hsettle
    exact Bool.and_eq_true_iff.mp husable
  · cases hsettle

namespace OptionError

theorem lift_ok {α : Type} {result : Except OptionError α} {a : α} (h : lift result = .ok a) :
    result = .ok a := by
  cases result with
  | error e => cases h
  | ok b => exact congrArg _ (Except.ok.inj h)

theorem lift_error_iff {α : Type} {result : Except OptionError α} {e : ProcessError} :
    lift result = .error e ↔ ∃ refusal, result = .error refusal ∧ refusal.toProcessError = e := by
  cases result with
  | ok a => simp [lift]
  | error refusal => simp [lift]

theorem toProcessError_ne_backend (refusal : OptionError) (fault : BackendError) :
    refusal.toProcessError ≠ .backend fault := by
  cases refusal <;> exact fun hfault => by cases hfault

theorem lift_error {α : Type} {result : Except OptionError α} {e : ProcessError}
    (h : lift result = .error e) (fault : BackendError) : e ≠ .backend fault := by
  obtain ⟨refusal, -, rfl⟩ := lift_error_iff.mp h
  exact refusal.toProcessError_ne_backend fault

end OptionError

/-! ### Steps -/

/-- The options of a step can be used. -/
def Step.Sane : Step → Prop
  | .resize options => options.hasTarget = true
  | .watermark _ => True
  | .blur options => options.sigma.isNaN = false ∧ ¬ options.sigma ≤ 0

namespace Operation

/-- The step is what the operation says, its options being understood. -/
inductive Means (settings : Settings) (op : Operation) : Step → Prop where
  | resize {o : ResizeOptions} (named : op.name = "resize")
      (parsed : ResizeOptions.parse op = .ok o) : Means settings op (.resize o)
  | watermark {o : WatermarkOptions} (named : op.name = "watermark")
      (parsed : WatermarkOptions.parse op = .ok o) :
      Means settings op (.watermark (o.toParams settings.dpi settings.margin))
  | blur {o : BlurOptions} (named : op.name = "blur")
      (parsed : BlurOptions.parse op = .ok o) : Means settings op (.blur o)

theorem step_ok_iff {settings : Settings} {op : Operation} {step : Step} :
    op.step settings = .ok step ↔ op.Means settings step := by
  constructor
  · intro h
    unfold Operation.step at h
    split at h
    · rename_i hname
      obtain ⟨o, hparse, hstep⟩ := bind_ok h
      cases hstep
      exact .resize hname (OptionError.lift_ok hparse)
    · rename_i hname
      obtain ⟨o, hparse, hstep⟩ := bind_ok h
      cases hstep
      exact .watermark hname (OptionError.lift_ok hparse)
    · rename_i hname
      obtain ⟨o, hparse, hstep⟩ := bind_ok h
      cases hstep
      exact .blur hname (OptionError.lift_ok hparse)
    · cases h
  · intro h
    cases h with
    | resize named parsed => simp only [Operation.step, named, parsed]; rfl
    | watermark named parsed => simp only [Operation.step, named, parsed]; rfl
    | blur named parsed => simp only [Operation.step, named, parsed]; rfl

/-- The options of the operation are not understood, or its name is not known. -/
inductive Refused (op : Operation) : ProcessError → Prop where
  | resize {e : OptionError} (named : op.name = "resize")
      (refused : ResizeOptions.parse op = .error e) : Refused op e.toProcessError
  | watermark {e : OptionError} (named : op.name = "watermark")
      (refused : WatermarkOptions.parse op = .error e) : Refused op e.toProcessError
  | blur {e : OptionError} (named : op.name = "blur")
      (refused : BlurOptions.parse op = .error e) : Refused op e.toProcessError
  | unknown (resize : op.name ≠ "resize") (watermark : op.name ≠ "watermark")
      (blur : op.name ≠ "blur") : Refused op (.unknownOperation op.name)

theorem step_error_iff {settings : Settings} {op : Operation} {e : ProcessError} :
    op.step settings = .error e ↔ op.Refused e := by
  constructor
  · intro h
    unfold Operation.step at h
    split at h
    · rename_i hname
      rcases bind_error h with hparse | ⟨_, -, hstep⟩
      · obtain ⟨refusal, hrefusal, rfl⟩ := OptionError.lift_error_iff.mp hparse
        exact .resize hname hrefusal
      · cases hstep
    · rename_i hname
      rcases bind_error h with hparse | ⟨_, -, hstep⟩
      · obtain ⟨refusal, hrefusal, rfl⟩ := OptionError.lift_error_iff.mp hparse
        exact .watermark hname hrefusal
      · cases hstep
    · rename_i hname
      rcases bind_error h with hparse | ⟨_, -, hstep⟩
      · obtain ⟨refusal, hrefusal, rfl⟩ := OptionError.lift_error_iff.mp hparse
        exact .blur hname hrefusal
      · cases hstep
    · rename_i hresize hwatermark hblur
      cases h
      exact .unknown hresize hwatermark hblur
  · intro h
    cases h with
    | resize named refused => simp only [Operation.step, named, refused]; rfl
    | watermark named refused => simp only [Operation.step, named, refused]; rfl
    | blur named refused => simp only [Operation.step, named, refused]; rfl
    | unknown hresize hwatermark hblur =>
      unfold Operation.step
      split
      · exact absurd ‹op.name = "resize"› hresize
      · exact absurd ‹op.name = "watermark"› hwatermark
      · exact absurd ‹op.name = "blur"› hblur
      · rfl

theorem step_sane {settings : Settings} {op : Operation} {step : Step}
    (h : op.step settings = .ok step) : step.Sane := by
  cases step_ok_iff.mp h with
  | resize _ parsed => exact ResizeOptions.hasTarget_of_parse parsed
  | watermark => trivial
  | blur _ parsed => exact BlurOptions.usable_iff.mp (BlurOptions.usable_of_parse parsed).1

theorem step_error {settings : Settings} {op : Operation} {e : ProcessError}
    (h : op.step settings = .error e) (fault : BackendError) : e ≠ .backend fault := by
  cases step_error_iff.mp h with
  | resize => exact OptionError.toProcessError_ne_backend _ fault
  | watermark => exact OptionError.toProcessError_ne_backend _ fault
  | blur => exact OptionError.toProcessError_ne_backend _ fault
  | unknown => exact fun hfault => by cases hfault

theorem steps_sane {settings : Settings} {ops : List Operation} {steps : List Step}
    (h : Operation.steps settings ops = .ok steps) : ∀ step ∈ steps, step.Sane := by
  induction ops generalizing steps with
  | nil =>
    cases h
    exact List.forall_mem_nil _
  | cons op rest ih =>
    obtain ⟨step, hstep, htail⟩ := bind_ok h
    obtain ⟨others, hrest, hall⟩ := bind_ok htail
    cases hall
    exact List.forall_mem_cons.mpr ⟨step_sane hstep, ih hrest⟩

theorem steps_error {settings : Settings} {ops : List Operation} {e : ProcessError}
    (h : Operation.steps settings ops = .error e) (fault : BackendError) : e ≠ .backend fault := by
  induction ops with
  | nil => cases h
  | cons op rest ih =>
    rcases bind_error h with hstep | ⟨step, -, htail⟩
    · exact step_error hstep fault
    · rcases bind_error htail with hrest | ⟨others, -, hall⟩
      · exact ih hrest
      · cases hall

end Operation

/-! ### Requests -/

theorem Descriptor.outputFormat_error {d : Descriptor} {e : ProcessError}
    (h : d.outputFormat = .error e) (fault : BackendError) : e ≠ .backend fault := by
  unfold outputFormat at h
  split at h
  · cases h
  · rcases bind_error h with hparse | ⟨_, -, hformat⟩
    · exact OptionError.lift_error hparse fault
    · cases hformat

namespace Request

theorem read_sane {settings : Settings} {descriptor : String} {steps : List Step}
    {format : Option OutputFormat} (h : read settings descriptor = .ok (.transform steps format)) :
    ∀ step ∈ steps, step.Sane := by
  unfold read at h
  split at h
  · cases h
  · unfold Descriptor.plan at h
    split at h
    · cases h
    · obtain ⟨planned, hsteps, hformat⟩ := bind_ok h
      obtain ⟨output, -, hrequest⟩ := bind_ok hformat
      cases hrequest
      exact Operation.steps_sane hsteps

theorem read_error {settings : Settings} {descriptor : String} {e : ProcessError}
    (h : read settings descriptor = .error e) (fault : BackendError) : e ≠ .backend fault := by
  unfold read at h
  split at h
  · cases h
    exact fun hfault => by cases hfault
  · unfold Descriptor.plan at h
    split at h
    · cases h
    · rcases bind_error h with hsteps | ⟨planned, -, hformat⟩
      · exact Operation.steps_error hsteps fault
      · rcases bind_error hformat with houtput | ⟨output, -, hrequest⟩
        · exact Descriptor.outputFormat_error houtput fault
        · cases hrequest

end Request

end ImagePipeline
