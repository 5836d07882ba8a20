import ImagePipeline.Proofs.Pipeline.ResizeTwice

/-!
# Simulated runs

One backend simulates another when their handles can be paired in such a way that a pair looks the
same and that the calls which succeed on the one succeed on the other and leave a pair
(`Backend.Simulates`). Of the changes only those count whose sides do not depend on the backend, as
no others are planned. Tasks are simulated piece by piece (`Task.Simulated`). So a run that succeeds
has the same calls and a like answer on the other backend (`answer_simulated`), and every call
leaves a pair of handles (`handles_simulated`).
-/

namespace ImagePipeline

variable {σ : Type} {B B' : Backend σ} {R : B.Handle → B'.Handle → Prop}

/-! ### Backends -/

/-- Two encodings claim the same, whatever their content is. -/
structure Encoded.Alike {β β' : Type} (e : Encoded β) (e' : Encoded β') : Prop where
  format_eq : e'.format = e.format
  width_eq : e'.width = e.width
  height_eq : e'.height = e.height

structure Backend.Simulates (B' B : Backend σ) (R : B.Handle → B'.Handle → Prop) : Prop where
  shape_eq {handle : B.Handle} {handle' : B'.Handle} : R handle handle' →
    B'.shape handle' = B.shape handle
  format_eq {handle : B.Handle} {handle' : B'.Handle} : R handle handle' →
    B'.format handle' = B.format handle
  edit {change : Edit σ} {handle changed : B.Handle} {handle' : B'.Handle} : R handle handle' →
    change.Exact → B.edit change handle = .ok changed →
      ∃ changed', B'.edit change handle' = .ok changed' ∧ R changed changed'
  encode {format : OutputFormat} {quality : Quality} {handle : B.Handle} {handle' : B'.Handle}
    {encoded : Encoded B.Body} : R handle handle' →
      B.encode format quality handle = .ok encoded →
        ∃ encoded', B'.encode format quality handle' = .ok encoded' ∧ encoded.Alike encoded'

/-- The benches hold a pair of handles and agree in everything else. -/
structure Workbench.Paired (R : B.Handle → B'.Handle → Prop) (bench : Workbench B)
    (bench' : Workbench B') : Prop where
  handle : R bench.handle bench'.handle
  calls_eq : bench'.calls = bench.calls
  cancelled_eq : bench'.cancelled = bench.cancelled

/-! ### Exact changes -/

section

variable [Scale σ]

/-- Planned steps do not depend on the reading of their factors. -/
theorem exact_of_plan {o : ResizeOptions} {source : Shape} {plan : List GeometryStep}
    (hplan : o.plan source = .ok plan) {step : GeometryStep} (hstep : step ∈ plan)
    (shape : Shape) : (Task.changeOf shape step : Edit σ).Exact := by
  have hexact := Task.changeOf_exact hplan shape step hstep
  cases step with
  | thumbnail width height interest sizing => exact hexact
  | resize | resizeAxes | embedCentered => trivial

namespace Backend.Undisturbed

variable (U : B.Undisturbed)

theorem planEdits_exact {plan : List GeometryStep}
    (hexact : ∀ step ∈ plan, ∀ shape, (Task.changeOf shape step : Edit σ).Exact)
    (handle : B.Handle) : ∀ change ∈ U.planEdits plan handle, change.Exact := by
  induction plan generalizing handle with
  | nil => exact List.forall_mem_nil _
  | cons step rest ih =>
    obtain ⟨hstep, hrest⟩ := List.forall_mem_cons.mp hexact
    exact List.forall_mem_cons.mpr ⟨hstep _, ih hrest _⟩

theorem stepEdits_exact (step : Step) (handle : B.Handle) :
    ∀ change ∈ U.stepEdits step handle, change.Exact := by
  cases step with
  | resize options =>
    simp only [stepEdits]
    cases hplan : options.plan (B.shape handle) with
    | error e => exact List.forall_mem_nil _
    | ok plan => exact U.planEdits_exact (fun _ hstep => exact_of_plan hplan hstep) handle
  | watermark params =>
    simp only [stepEdits]
    split
    · exact List.forall_mem_singleton.mpr trivial
    · exact List.forall_mem_cons.mpr ⟨trivial, List.forall_mem_singleton.mpr trivial⟩
  | blur options => exact List.forall_mem_singleton.mpr trivial

theorem stepsEdits_exact (steps : List Step) (handle : B.Handle) :
    ∀ change ∈ U.stepsEdits steps handle, change.Exact := by
  induction steps generalizing handle with
  | nil => exact List.forall_mem_nil _
  | cons step rest ih =>
    exact List.forall_mem_append.mpr ⟨U.stepEdits_exact step handle, ih _⟩

end Backend.Undisturbed

theorem Request.script_exact (U : B.Undisturbed) (request : Request) (settings : Settings)
    (handle : B.Handle) {change : Edit σ} (h : .edit change ∈ request.script U settings handle) :
    change.Exact := by
  cases request with
  | info => cases h
  | transform steps format =>
    rcases List.mem_append.mp h with hedit | hencode
    · obtain ⟨_, hmem, hsame⟩ := List.mem_map.mp hedit
      cases hsame
      exact U.stepsEdits_exact steps handle change hmem
    · cases List.mem_singleton.mp hencode

end

/-! ### Pieces of tasks -/

namespace Task

/-- On paired benches the second task succeeds whenever the first one does, with a value that is
like the first one's. -/
structure Simulated {α α' : Type} (R : B.Handle → B'.Handle → Prop) (task : Task B α)
    (task' : Task B' α') (Q : α → α' → Prop) : Prop where
  run {before after : Workbench B} {before' : Workbench B'} {value : α} :
    Workbench.Paired R before before' → task.run.run before = (.ok value, after) →
      ∃ (value' : α') (after' : Workbench B'), task'.run.run before' = (.ok value', after') ∧
        Q value value' ∧ Workbench.Paired R after after'

abbrev SimulatedUnit (R : B.Handle → B'.Handle → Prop) (task : Task B Unit)
    (task' : Task B' Unit) : Prop :=
  Simulated R task task' fun _ _ => True

namespace Simulated

variable {α α' β β' : Type} {task : Task B α} {task' : Task B' α'} {Q : α → α' → Prop}

theorem pure {value : α} {value' : α'} (h : Q value value') :
    Simulated R (Pure.pure value : Task B α) (Pure.pure value') Q := by
  constructor
  intro before after before' _ hpaired hrun
  cases hrun
  exact ⟨value', before', rfl, h, hpaired⟩

theorem bind {next : α → Task B β} {next' : α' → Task B' β'} {S : β → β' → Prop}
    (htask : Simulated R task task' Q)
    (hnext : ∀ value value', Q value value' →
      Simulated R (next value) (next' value') S) :
    Simulated R (task >>= next) (task' >>= next') S := by
  constructor
  intro before after before' result hpaired hrun
  obtain ⟨value, middle, hfirst, hsecond⟩ := run_bind_inv hrun
  obtain ⟨value', middle', hfirst', halike, hmiddle⟩ := htask.run hpaired hfirst
  obtain ⟨result', after', hsecond', hresult, hafter⟩ :=
    (hnext value value' halike).run hmiddle hsecond
  exact ⟨result', after', (run_bind_ok hfirst').trans hsecond', hresult, hafter⟩

theorem get : Simulated R (get : Task B (Workbench B)) (get : Task B' (Workbench B'))
    (Workbench.Paired R) := by
  constructor
  intro before after before' bench hpaired hrun
  cases hrun
  exact ⟨before', before', rfl, hpaired, hpaired⟩

theorem modify {f : Workbench B → Workbench B} {f' : Workbench B' → Workbench B'}
    (h : ∀ bench bench', Workbench.Paired R bench bench' →
      Workbench.Paired R (f bench) (f' bench')) :
    SimulatedUnit R (modify f : Task B Unit) (modify f' : Task B' Unit) := by
  constructor
  intro before after before' _ hpaired hrun
  cases hrun
  exact ⟨(), f' before', rfl, trivial, h before before' hpaired⟩

theorem throw (e : ProcessError) : Simulated R (throw e : Task B α) task' Q := by
  constructor
  intro before after before' value _ hrun
  cases hrun

theorem ofCall {result : Except BackendError α} {result' : Except BackendError α'}
    (h : ∀ value, result = .ok value → ∃ value', result' = .ok value' ∧ Q value value') :
    Simulated R (Task.ofCall result : Task B α) (Task.ofCall result') Q := by
  cases result with
  | error e => exact throw (.ofBackend e)
  | ok value =>
    obtain ⟨value', rfl, halike⟩ := h value rfl
    exact pure halike

end Simulated

/-! ### The tasks of a run -/

section

variable (interruption : Interruption σ)

theorem record_simulated (call : Call σ) :
    SimulatedUnit R (record interruption call) (record interruption call) := by
  refine Simulated.modify ?_
  intro bench bench' hpaired
  refine ⟨hpaired.handle, ?_, ?_⟩
  · exact congrArg (· ++ [call]) hpaired.calls_eq
  · dsimp only
    rw [hpaired.calls_eq, hpaired.cancelled_eq]

theorem checkCancelled_simulated (left : Nat) :
    SimulatedUnit R (checkCancelled interruption left) (checkCancelled interruption left) := by
  refine Simulated.bind (Q := fun _ _ => True) (Simulated.modify ?_) ?_
  · intro bench bench' hpaired
    exact ⟨hpaired.handle, hpaired.calls_eq,
      congrArg (· || interruption.between left) hpaired.cancelled_eq⟩
  · intro _ _ _
    refine Simulated.bind Simulated.get ?_
    intro bench bench' hpaired
    rw [hpaired.cancelled_eq]
    cases bench.cancelled with
    | true => exact Simulated.throw .cancelled
    | false => exact Simulated.pure trivial

variable (hsim : B'.Simulates B R)
include hsim

theorem perform_simulated {change : Edit σ} (hexact : change.Exact) :
    SimulatedUnit R (perform interruption change) (perform interruption change) := by
  refine Simulated.bind (record_simulated interruption (.edit change)) ?_
  intro _ _ _
  refine Simulated.bind Simulated.get ?_
  intro bench bench' hpaired
  refine Simulated.bind (Simulated.ofCall (Q := R) ?_) ?_
  · intro changed hedit
    exact hsim.edit hpaired.handle hexact hedit
  · intro changed changed' hchanged
    refine Simulated.modify ?_
    intro last last' hlast
    exact ⟨hchanged, hlast.calls_eq, hlast.cancelled_eq⟩

theorem encode_simulated (requested : Option OutputFormat) (quality : Quality) :
    Simulated R (Task.encode interruption requested quality)
      (Task.encode interruption requested quality) Encoded.Alike := by
  refine Simulated.bind Simulated.get ?_
  intro bench bench' hpaired
  dsimp only
  rw [hsim.format_eq hpaired.handle]
  refine Simulated.bind (record_simulated interruption _) ?_
  intro _ _ _
  refine Simulated.ofCall ?_
  intro encoded hencode
  exact hsim.encode hpaired.handle hencode

variable [Scale σ]

theorem followPlan_simulated {plan : List GeometryStep}
    (hexact : ∀ step ∈ plan, ∀ shape, (changeOf shape step : Edit σ).Exact) :
    SimulatedUnit R (followPlan interruption plan) (followPlan interruption plan) := by
  induction plan with
  | nil => exact Simulated.pure trivial
  | cons step rest ih =>
    obtain ⟨hstep, hrest⟩ := List.forall_mem_cons.mp hexact
    refine Simulated.bind Simulated.get ?_
    intro bench bench' hpaired
    rw [hsim.shape_eq hpaired.handle]
    refine Simulated.bind (perform_simulated interruption hsim (hstep _)) ?_
    intro _ _ _
    exact ih hrest

theorem step_simulated (step : Step) :
    SimulatedUnit R (Task.step interruption step) (Task.step interruption step) := by
  cases step with
  | resize options =>
    refine Simulated.bind Simulated.get ?_
    intro bench bench' hpaired
    rw [hsim.shape_eq hpaired.handle]
    cases hplan : options.plan (B.shape bench.handle) with
    | error e => exact Simulated.throw (.ofPlan e)
    | ok plan =>
      refine followPlan_simulated interruption hsim ?_
      intro step hstep shape
      exact exact_of_plan hplan hstep shape
  | watermark params =>
    refine Simulated.bind Simulated.get ?_
    intro bench bench' hpaired
    rw [hsim.shape_eq hpaired.handle]
    have hdraw : SimulatedUnit R (perform interruption (.watermark params))
        (perform interruption (.watermark params)) := perform_simulated interruption hsim trivial
    cases (B.shape bench.handle).hasAlpha with
    | true => exact hdraw
    | false => exact Simulated.bind (perform_simulated interruption hsim trivial) fun _ _ _ => hdraw
  | blur options => exact perform_simulated interruption hsim trivial

theorem steps_simulated (steps : List Step) :
    SimulatedUnit R (Task.steps interruption steps) (Task.steps interruption steps) := by
  induction steps with
  | nil => exact Simulated.pure trivial
  | cons step rest ih =>
    refine Simulated.bind (checkCancelled_simulated interruption (rest.length + 1)) ?_
    intro _ _ _
    refine Simulated.bind (step_simulated interruption hsim step) ?_
    intro _ _ _
    exact ih

end

end Task

/-! ### Runs -/

/-- The answers say the same, but for the content of an encoding. -/
inductive Output.Alike {β β' : Type} : Output β → Output β' → Prop where
  | image {e : Encoded β} {e' : Encoded β'} (alike : e.Alike e') : Alike (.image e) (.image e')
  | info (report : ImageInfo) : Alike (.info report) (.info report)

section

variable [Scale σ] (hsim : B'.Simulates B R)
include hsim

theorem Request.work_simulated (request : Request) (settings : Settings)
    (interruption : Interruption σ) (bytes : Nat) :
    Task.Simulated R (request.work (B := B) settings interruption bytes)
      (request.work (B := B') settings interruption bytes) Output.Alike := by
  cases request with
  | info =>
    refine Task.Simulated.bind Task.Simulated.get ?_
    intro bench bench' hpaired
    dsimp only
    rw [hsim.shape_eq hpaired.handle, hsim.format_eq hpaired.handle]
    exact Task.Simulated.pure (.info _)
  | transform steps format =>
    refine Task.Simulated.bind (Task.steps_simulated interruption hsim steps) ?_
    intro _ _ _
    refine Task.Simulated.bind (Task.checkCancelled_simulated interruption 0) ?_
    intro _ _ _
    refine Task.Simulated.bind
      (Task.encode_simulated interruption hsim format settings.quality) ?_
    intro encoded encoded' halike
    exact Task.Simulated.pure (.image halike)

omit [Scale σ] in
/-- Calls that all succeed on one handle lead from a pair to a pair, as long as none closes. -/
theorem replay_simulated {calls : List (Call σ)}
    (hexact : ∀ change, .edit change ∈ calls → change.Exact) (hopen : .close ∉ calls)
    {handle last : B.Handle} {handle' : B'.Handle} (hpaired : R handle handle')
    (hreplay : B.replay calls handle = .ok last) :
    ∃ last', B'.replay calls handle' = .ok last' ∧ R last last' := by
  induction calls generalizing handle handle' with
  | nil =>
    cases hreplay
    exact ⟨handle', rfl, hpaired⟩
  | cons call rest ih =>
    have hexact' (change : Edit σ) (h : .edit change ∈ rest) : change.Exact :=
      hexact change (List.mem_cons_of_mem call h)
    have hopen' : Call.close ∉ rest := fun h => hopen (List.mem_cons_of_mem call h)
    cases call with
    | load bytes => exact ih hexact' hopen' hpaired hreplay
    | close => exact absurd List.mem_cons_self hopen
    | edit change =>
      cases hedit : B.edit change handle with
      | error e =>
        rw [Backend.replay_edit_error hedit] at hreplay
        cases hreplay
      | ok changed =>
        obtain ⟨changed', hedit', hchanged⟩ :=
          hsim.edit hpaired (hexact change List.mem_cons_self) hedit
        simp only [Backend.replay, hedit] at hreplay
        simp only [Backend.replay, hedit']
        exact ih hexact' hopen' hchanged hreplay
    | encode format quality =>
      cases hencode : B.encode format quality handle with
      | error e =>
        simp only [Backend.replay, hencode] at hreplay
        cases hreplay
      | ok encoded =>
        obtain ⟨encoded', hencode', -⟩ := hsim.encode hpaired hencode
        simp only [Backend.replay, hencode] at hreplay
        simp only [Backend.replay, hencode']
        exact ih hexact' hopen' hpaired hreplay

variable {settings : Settings} {interruption : Interruption σ} {source : ByteArray}
  {descriptor : String} {handle : B.Handle} {handle' : B'.Handle}
  (hload : B.load source = .ok handle) (hload' : B'.load source = .ok handle')
  (hpaired : R handle handle') {output : Output B.Body}
  (hok : (process B settings interruption source descriptor).result = .ok output)
include hload hpaired hok

include hload' in
theorem answer_simulated :
    (process B' settings interruption source descriptor).calls
        = (process B settings interruption source descriptor).calls ∧
      ∃ output', (process B' settings interruption source descriptor).result = .ok output' ∧
        output.Alike output' := by
  cases hread : Request.read settings descriptor with
  | error e =>
    simp only [process, hread] at hok
    cases hok
  | ok request =>
    cases hstart : interruption.atStart with
    | true =>
      simp only [process, hread, hstart, if_true] at hok
      cases hok
    | false =>
      have hopened := process_opened hread hstart hload
      have hopened' := process_opened hread hstart hload'
      let before : Workbench B := .opened interruption source.size handle
      let before' : Workbench B' := .opened interruption source.size handle'
      have hbefore : Workbench.Paired R before before' := ⟨hpaired, rfl, rfl⟩
      rcases hrun : (request.work (B := B) settings interruption source.size).run.run before with
        ⟨result, after⟩
      rw [hrun] at hopened
      rw [hopened] at hok
      cases hok
      obtain ⟨output', after', hrun', halike, hafter⟩ :=
        (request.work_simulated hsim settings interruption source.size).run hbefore hrun
      rw [hrun'] at hopened'
      rw [hopened, hopened']
      exact ⟨congrArg (· ++ [Call.close]) hafter.calls_eq, output', rfl, halike⟩

theorem handles_simulated {made : List (Call σ)} (hopen : .close ∉ made)
    (hmade : .load source.size :: made
      <+: (process B settings interruption source descriptor).calls) :
    ∃ last last', B.replay made handle = .ok last ∧ B'.replay made handle' = .ok last' ∧
      R last last' := by
  have hlife := process_follows B.undisturbed settings interruption source descriptor
  generalize process B settings interruption source descriptor = run at hlife hok hmade
  cases hlife with
  | unreadable | cancelled => cases hok
  | undecodable => cases hok
  | @opened request loaded calls result _ _ hloaded _ hfollows =>
    cases hload.symm.trans hloaded
    -- A run that succeeds has gone through its whole script, in which all changes are exact.
    obtain ⟨hscript, final, hfinal⟩ := hfollows.ok_iff.mp ⟨output, hok⟩
    have hcalls : made <+: calls := by
      rcases List.prefix_concat_iff.mp (List.cons_prefix_cons.mp hmade).2 with rfl | hcalls
      · exact absurd (List.mem_append_right calls (List.mem_singleton_self Call.close)) hopen
      · exact hcalls
    have hexact (change : Edit σ) (h : .edit change ∈ made) : change.Exact := by
      refine request.script_exact B.undisturbed settings handle ?_
      rw [← hscript]
      exact hcalls.subset h
    obtain ⟨rest, rfl⟩ := hcalls
    obtain ⟨last, hlast⟩ := Backend.replay_of_append hfinal
    obtain ⟨last', hlast', hpair⟩ := replay_simulated hsim hexact hopen hpaired hlast
    exact ⟨last, last', hlast, hlast', hpair⟩

end

end ImagePipeline
