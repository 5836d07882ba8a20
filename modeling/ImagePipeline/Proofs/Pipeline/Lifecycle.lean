import ImagePipeline.Pipeline.Rehearsal
import ImagePipeline.Proofs.Pipeline.Script

/-!
# The life of a handle

A run opens at most one handle and closes the one that it has opened, as its very last call
(`process_lifecycle`). In between it keeps to the script of its request: it may stop at any point,
because a call fails or because the request is cancelled, but it never leaves the script, and
nothing but the closing follows a failed call. The tasks of which a run consists are looked at one
by one (`Task.Outcome`); what they do in a row is put together by `Task.Outcome.bind`.
-/

namespace ImagePipeline

variable {σ : Type} {B : Backend σ}

/-! ### What becomes of a task -/

/-- What becomes of a task on a bench when it is expected to make certain calls: it makes them all,
it ends with the first of them that fails, or it stops of itself after some of them. -/
inductive Task.Outcome {α : Type} (expected : List (Call σ)) (before : Workbench B) :
    Except ProcessError α × Workbench B → Prop where
  | finished {value : α} {after : Workbench B} (calls : after.calls = before.calls ++ expected)
      (replayed : B.replay expected before.handle = .ok after.handle) :
      Outcome expected before (.ok value, after)
  | failed {made : List (Call σ)} {call : Call σ} {middle : B.Handle} {e : BackendError}
      {after : Workbench B} (keeps : made ++ [call] <+: expected)
      (calls : after.calls = before.calls ++ (made ++ [call]))
      (replayed : B.replay made before.handle = .ok middle)
      (refused : B.replay [call] middle = .error e) :
      Outcome expected before (.error (.ofBackend e), after)
  | stopped {made : List (Call σ)} {e : ProcessError} {last : B.Handle} {after : Workbench B}
      (keeps : made <+: expected) (calls : after.calls = before.calls ++ made)
      (replayed : B.replay made before.handle = .ok last) (own : ∀ fault, e ≠ .backend fault) :
      Outcome expected before (.error e, after)

namespace Task

variable {α β : Type}

theorem run_bind_ok {task : Task B α} {next : α → Task B β} {before after : Workbench B} {value : α}
    (h : task.run.run before = (.ok value, after)) :
    (task >>= next).run.run before = (next value).run.run after := by
  simp only [ExceptT.run_bind, StateT.run_bind] at h ⊢
  rw [h]
  rfl

theorem run_bind_error {task : Task B α} {next : α → Task B β} {before after : Workbench B}
    {e : ProcessError} (h : task.run.run before = (.error e, after)) :
    (task >>= next).run.run before = (.error e, after) := by
  simp only [ExceptT.run_bind, StateT.run_bind] at h ⊢
  rw [h]
  rfl

theorem run_bind_congr {task task' : Task B α} {before before' : Workbench B}
    (h : task.run.run before = task'.run.run before') (next : α → Task B β) :
    (task >>= next).run.run before = (task' >>= next).run.run before' := by
  simp only [ExceptT.run_bind, StateT.run_bind] at h ⊢
  rw [h]

theorem run_bind_inv {task : Task B α} {next : α → Task B β} {before after : Workbench B}
    {value : β} (h : (task >>= next).run.run before = (.ok value, after)) :
    ∃ first middle, task.run.run before = (.ok first, middle) ∧
      (next first).run.run middle = (.ok value, after) := by
  rcases hrun : task.run.run before with ⟨result, middle⟩
  cases result with
  | error e =>
    rw [run_bind_error hrun] at h
    cases h
  | ok first =>
    rw [run_bind_ok hrun] at h
    exact ⟨first, middle, rfl, h⟩

namespace Outcome

theorem bind {first second : List (Call σ)} {before : Workbench B} {task : Task B α}
    {next : α → Task B β} (hfirst : Outcome first before (task.run.run before))
    (hsecond : ∀ value after, B.replay first before.handle = .ok after.handle →
      Outcome second after ((next value).run.run after)) :
    Outcome (first ++ second) before ((task >>= next).run.run before) := by
  rcases hrun : task.run.run before with ⟨result, after⟩
  rw [hrun] at hfirst
  cases hfirst with
  | @finished value _ calls replayed =>
    rw [run_bind_ok hrun]
    have hnext := hsecond value after replayed
    rcases hlast : (next value).run.run after with ⟨final, last⟩
    rw [hlast] at hnext
    cases hnext with
    | finished calls' replayed' =>
      refine .finished ?_ ?_
      · rw [calls', calls, List.append_assoc]
      · rw [Backend.replay_append_ok replayed, replayed']
    | @failed made call middle e _ keeps calls' replayed' refused =>
      have hkeeps : (first ++ made) ++ [call] <+: first ++ second := by
        rw [List.append_assoc]
        exact (List.prefix_append_right_inj first).mpr keeps
      refine .failed hkeeps ?_ ?_ refused
      · rw [calls', calls]
        simp only [List.append_assoc]
      · rw [Backend.replay_append_ok replayed, replayed']
    | @stopped made e final _ keeps calls' replayed' own =>
      have hkeeps : first ++ made <+: first ++ second :=
        (List.prefix_append_right_inj first).mpr keeps
      have hreplayed : B.replay (first ++ made) before.handle = .ok final := by
        rw [Backend.replay_append_ok replayed, replayed']
      refine .stopped hkeeps ?_ hreplayed own
      rw [calls', calls, List.append_assoc]
  | failed keeps calls replayed refused =>
    rw [run_bind_error hrun]
    exact .failed (keeps.trans (List.prefix_append first second)) calls replayed refused
  | stopped keeps calls replayed own =>
    rw [run_bind_error hrun]
    exact .stopped (keeps.trans (List.prefix_append first second)) calls replayed own

end Outcome

/-! ### The tasks of a run -/

variable (interruption : Interruption σ)

theorem run_checkCancelled (left : Nat) (before : Workbench B) :
    (checkCancelled interruption left).run.run before
      = let raised := before.cancelled || interruption.between left
        (if raised then .error .cancelled else .ok (), { before with cancelled := raised }) := by
  unfold checkCancelled
  change StateT.run (ExceptT.run (if before.cancelled || interruption.between left then
      throw ProcessError.cancelled else pure () : Task B Unit))
      { before with cancelled := before.cancelled || interruption.between left } = _
  dsimp only
  cases before.cancelled || interruption.between left <;> rfl

theorem run_perform (change : Edit σ) (before : Workbench B) :
    (perform (B := B) interruption change).run.run before
      = let calls := before.calls ++ [.edit change]
        let cancelled := before.cancelled || interruption.during calls
        match B.edit change before.handle with
        | .ok changed => (.ok (), ⟨changed, calls, cancelled⟩)
        | .error e => (.error (.ofBackend e), ⟨before.handle, calls, cancelled⟩) := by
  unfold perform
  change StateT.run (ExceptT.run (ofCall (B.edit change before.handle) >>= _)) _ = _
  cases B.edit change before.handle <;> rfl

theorem edit_of_perform {change : Edit σ} {before after : Workbench B}
    (h : (perform interruption change).run.run before = (.ok (), after)) :
    B.edit change before.handle = .ok after.handle := by
  rw [run_perform] at h
  cases hedit : B.edit change before.handle with
  | error e =>
    simp only [hedit] at h
    cases h
  | ok changed =>
    simp only [hedit] at h
    cases h
    rfl

theorem run_encode (requested : Option OutputFormat) (quality : Quality) (before : Workbench B) :
    (encode interruption requested quality).run.run before
      = let format := OutputFormat.resolve requested (B.format before.handle)
        let calls := before.calls ++ [.encode format quality]
        let cancelled := before.cancelled || interruption.during calls
        (match B.encode format quality before.handle with
          | .ok encoded => .ok encoded
          | .error e => .error (.ofBackend e), ⟨before.handle, calls, cancelled⟩) := by
  unfold encode
  change StateT.run (ExceptT.run (ofCall (B.encode _ quality before.handle))) _ = _
  dsimp only
  cases B.encode (OutputFormat.resolve requested (B.format before.handle)) quality before.handle
    <;> rfl

theorem checkCancelled_outcome (left : Nat) (before : Workbench B) :
    Outcome [] before ((checkCancelled interruption left).run.run before) := by
  rw [run_checkCancelled]
  dsimp only
  cases before.cancelled || interruption.between left with
  | true =>
    refine .stopped (List.prefix_refl []) (List.append_nil _).symm rfl ?_
    intro fault h
    cases h
  | false => exact .finished (List.append_nil _).symm rfl

theorem perform_outcome (change : Edit σ) (before : Workbench B) :
    Outcome [.edit change] before ((perform interruption change).run.run before) := by
  rw [run_perform]
  dsimp only
  cases hc : B.edit change before.handle with
  | ok changed =>
    have hreplay : B.replay [.edit change] before.handle = .ok changed := by
      simp only [Backend.replay, hc]
    exact .finished rfl hreplay
  | error e =>
    have hreplay : B.replay [.edit change] before.handle = .error e := by
      simp only [Backend.replay, hc]
    exact .failed (List.prefix_refl ([] ++ [Call.edit change])) rfl rfl hreplay

theorem run_watermark (params : WatermarkParams) (before : Workbench B) :
    (watermark interruption params).run.run before
      = (if !(B.shape before.handle).hasAlpha then
          perform interruption .addAlpha >>= fun _ => perform interruption (.watermark params)
        else perform interruption (.watermark params)).run.run before := rfl

variable [Scale σ]

theorem run_followPlan_cons (step : GeometryStep) (rest : List GeometryStep)
    (before : Workbench B) :
    (followPlan interruption (step :: rest)).run.run before
      = (perform interruption (changeOf (B.shape before.handle) step) >>= fun _ =>
          followPlan interruption rest).run.run before := rfl

theorem run_resize (options : ResizeOptions) (before : Workbench B) :
    (resize interruption options).run.run before
      = match options.plan (B.shape before.handle) with
        | .ok plan => (followPlan interruption plan).run.run before
        | .error e => (.error (.ofPlan e), before) := by
  unfold resize
  change StateT.run (ExceptT.run (match options.plan (B.shape before.handle) with
    | .ok plan => followPlan interruption plan
    | .error e => throw (.ofPlan e))) before = _
  cases options.plan (B.shape before.handle) <;> rfl

variable (U : B.Undisturbed)

theorem followPlan_outcome (plan : List GeometryStep) (before : Workbench B) :
    Outcome ((U.planEdits plan before.handle).map .edit) before
      ((followPlan interruption plan).run.run before) := by
  induction plan generalizing before with
  | nil => exact .finished (List.append_nil _).symm rfl
  | cons step rest ih =>
    let change : Edit σ := changeOf (B.shape before.handle) step
    have hrest (after : Workbench B)
        (replayed : B.replay ([change].map .edit) before.handle = .ok after.handle) :
        Outcome ((U.planEdits rest (U.after change before.handle)).map .edit) after
          ((followPlan interruption rest).run.run after) := by
      have hafter : U.after change before.handle = after.handle := U.afterAll_of_replay replayed
      rw [hafter]
      exact ih after
    exact Outcome.bind (perform_outcome interruption change before) fun _ => hrest

theorem step_outcome (step : Step) (before : Workbench B) :
    Outcome ((U.stepEdits step before.handle).map .edit) before
      ((Task.step interruption step).run.run before) := by
  cases step with
  | resize options =>
    change Outcome _ before ((resize interruption options).run.run before)
    rw [run_resize]
    simp only [Backend.Undisturbed.stepEdits]
    cases hplan : options.plan (B.shape before.handle) with
    | ok plan => exact followPlan_outcome interruption U plan before
    | error e =>
      refine .stopped (List.prefix_refl []) (List.append_nil _).symm rfl ?_
      intro fault h
      cases h
  | watermark params =>
    change Outcome _ before ((watermark interruption params).run.run before)
    rw [run_watermark]
    simp only [Backend.Undisturbed.stepEdits]
    cases halpha : (B.shape before.handle).hasAlpha with
    | true =>
      exact perform_outcome interruption (.watermark params) before
    | false =>
      exact Outcome.bind (perform_outcome interruption .addAlpha before)
        (fun _ after _ => perform_outcome interruption (.watermark params) after)
  | blur options =>
    exact perform_outcome interruption (.blur options.sigma options.minAmplitude) before

theorem steps_outcome (steps : List Step) (before : Workbench B) :
    Outcome ((U.stepsEdits steps before.handle).map .edit) before
      ((Task.steps interruption steps).run.run before) := by
  induction steps generalizing before with
  | nil => exact .finished (List.append_nil _).symm rfl
  | cons step rest ih =>
    simp only [Backend.Undisturbed.stepsEdits, List.map_append]
    rw [← List.nil_append (_ ++ _)]
    refine Outcome.bind (checkCancelled_outcome interruption (rest.length + 1) before) ?_
    intro _ looked hlooked
    have hsame : before.handle = looked.handle := Except.ok.inj hlooked
    rw [hsame]
    refine Outcome.bind (step_outcome interruption U step looked) ?_
    intro _ after replayed
    rw [U.afterAll_of_replay replayed]
    exact ih after

end Task

/-! ### What becomes of a run -/

/-- How the calls made on a handle and the answer to a request hang together: the calls are the
beginning of the script, none follows one that failed, the request succeeds exactly when the script
was gone through without a failure, and a failed call, but nothing else, is what the answer blames
on the backend. -/
structure Request.Follows {γ : Type} (script : List (Call σ)) (handle : B.Handle)
    (made : List (Call σ)) (result : Except ProcessError γ) : Prop where
  made_prefix : made <+: script
  only_last_fails : ∃ middle, B.replay made.dropLast handle = .ok middle
  ok_iff : (∃ output, result = .ok output) ↔ made = script ∧ ∃ last, B.replay made handle = .ok last
  failure : ∀ e, B.replay made handle = .error e → result = .error (.ofBackend e)
  blameless : ∀ last, B.replay made handle = .ok last → ∀ fault, result ≠ .error (.backend fault)

namespace Request.Follows

variable {γ : Type} {script made : List (Call σ)} {call : Call σ} {handle middle last : B.Handle}

theorem completed (hmade : B.replay made handle = .ok middle)
    (hcall : B.replay [call] middle = .ok last) (output : γ) :
    Follows (made ++ [call]) handle (made ++ [call]) (.ok output) := by
  have hreplay : B.replay (made ++ [call]) handle = .ok last := by
    rw [Backend.replay_append_ok hmade, hcall]
  refine ⟨List.prefix_refl _, ?_, ?_, ?_, ?_⟩
  · rw [List.dropLast_concat]
    exact ⟨_, hmade⟩
  · exact ⟨fun _ => ⟨rfl, _, hreplay⟩, fun _ => ⟨_, rfl⟩⟩
  · intro e hfail
    rw [hreplay] at hfail
    cases hfail
  · intro _ _ fault h
    cases h

theorem failed {e : BackendError} (hkeeps : made ++ [call] <+: script)
    (hmade : B.replay made handle = .ok middle) (hcall : B.replay [call] middle = .error e) :
    Follows (γ := γ) script handle (made ++ [call]) (.error (.ofBackend e)) := by
  have hreplay : B.replay (made ++ [call]) handle = .error e := by
    rw [Backend.replay_append_ok hmade, hcall]
  refine ⟨hkeeps, ?_, ?_, ?_, ?_⟩
  · rw [List.dropLast_concat]
    exact ⟨_, hmade⟩
  · simp only [hreplay, reduceCtorEq, exists_false, and_false]
  · intro e' hfail
    rw [hreplay] at hfail
    cases hfail
    rfl
  · intro final hfinal
    rw [hreplay] at hfinal
    cases hfinal

theorem stopped {e : ProcessError} (hkeeps : made <+: script) (hshort : made ≠ script)
    (hmade : B.replay made handle = .ok last) (hown : ∀ fault, e ≠ .backend fault) :
    Follows (γ := γ) script handle made (.error e) := by
  refine ⟨hkeeps, ?_, ?_, ?_, ?_⟩
  · rw [List.dropLast_eq_take]
    rw [← List.take_append_drop (made.length - 1) made] at hmade
    exact Backend.replay_of_append hmade
  · simp only [hshort, reduceCtorEq, exists_false, false_and]
  · intro e' hfail
    rw [hmade] at hfail
    cases hfail
  · intro _ _ fault h
    exact hown fault (Except.error.inj h)

end Request.Follows

/-- A task in front of one more call: the call is made when the task has made all of its own. -/
theorem Task.Outcome.follows {α γ : Type} {expected : List (Call σ)} {call : Call σ}
    {before : Workbench B} {task : Task B α} {next : α → Task B γ}
    (htask : Task.Outcome expected before (task.run.run before))
    (hnext : ∀ value after, B.replay expected before.handle = .ok after.handle →
      let outcome := (next value).run.run after
      outcome.2.calls = after.calls ++ [call] ∧
        ((∃ last, B.replay [call] after.handle = .ok last) ∧ (∃ output, outcome.1 = .ok output) ∨
          ∃ e, B.replay [call] after.handle = .error e ∧ outcome.1 = .error (.ofBackend e))) :
    let outcome := (task >>= next).run.run before
    ∃ made, outcome.2.calls = before.calls ++ made ∧
      Request.Follows (expected ++ [call]) before.handle made outcome.1 := by
  rcases hrun : task.run.run before with ⟨result, after⟩
  rw [hrun] at htask
  cases htask with
  | finished calls replayed =>
    rw [Task.run_bind_ok hrun]
    obtain ⟨hcalls, hend⟩ := hnext _ after replayed
    refine ⟨expected ++ [call], ?_, ?_⟩
    · rw [hcalls, calls, List.append_assoc]
    · rcases hend with ⟨⟨last, hcall⟩, output, hok⟩ | ⟨e, hcall, herror⟩
      · rw [hok]
        exact .completed replayed hcall output
      · rw [herror]
        exact .failed (List.prefix_refl _) replayed hcall
  | @failed made last middle e _ keeps calls replayed refused =>
    rw [Task.run_bind_error hrun]
    exact ⟨made ++ [last], calls, .failed (keeps.trans (List.prefix_append _ _)) replayed refused⟩
  | @stopped made e last _ keeps calls replayed own =>
    rw [Task.run_bind_error hrun]
    have hshort : made ≠ expected ++ [call] := by
      intro heq
      have hle := keeps.length_le
      rw [heq, List.length_append, List.length_singleton] at hle
      omega
    exact ⟨made, calls, .stopped (keeps.trans (List.prefix_append _ _)) hshort replayed own⟩

theorem Request.work_follows [Scale σ] (U : B.Undisturbed) (request : Request) (settings : Settings)
    (interruption : Interruption σ) (bytes : Nat) (before : Workbench B) :
    let outcome := (request.work (B := B) settings interruption bytes).run.run before
    ∃ made, outcome.2.calls = before.calls ++ made ∧
      Request.Follows (request.script U settings before.handle) before.handle made outcome.1 := by
  cases request with
  | info =>
    refine ⟨[], (List.append_nil _).symm, List.prefix_refl [], ⟨_, rfl⟩, ?_, ?_, ?_⟩
    · exact ⟨fun _ => ⟨rfl, _, rfl⟩, fun _ => ⟨_, rfl⟩⟩
    · intro e hfail
      cases hfail
    · intro _ _ fault h
      cases h
  | transform steps format =>
    have hsteps : Task.Outcome ((U.stepsEdits steps before.handle).map .edit) before
        ((Task.steps interruption steps >>= fun _ =>
          Task.checkCancelled interruption 0).run.run before) := by
      have hbind := Task.Outcome.bind (Task.steps_outcome interruption U steps before)
        (fun _ after _ => Task.checkCancelled_outcome interruption 0 after)
      rwa [List.append_nil] at hbind
    have hwork : (Request.transform steps format).work (B := B) settings interruption bytes
        = (Task.steps interruption steps >>= fun _ => Task.checkCancelled interruption 0)
          >>= fun _ => Task.encode interruption format settings.quality >>= fun encoded =>
            pure (Output.image encoded) := by
      rw [bind_assoc]
      rfl
    rw [hwork]
    refine Task.Outcome.follows hsteps ?_
    intro _ after replayed
    rw [U.afterAll_of_replay replayed]
    have hencode := Task.run_encode interruption format settings.quality after
    dsimp only at hencode ⊢
    cases hc : B.encode (OutputFormat.resolve format (B.format after.handle)) settings.quality
        after.handle with
    | ok encoded =>
      rw [hc] at hencode
      rw [Task.run_bind_ok hencode]
      refine ⟨rfl, .inl ⟨⟨after.handle, ?_⟩, ⟨.image encoded, rfl⟩⟩⟩
      simp only [Backend.replay, hc]
    | error e =>
      rw [hc] at hencode
      rw [Task.run_bind_error hencode]
      refine ⟨rfl, .inr ⟨e, ?_, rfl⟩⟩
      simp only [Backend.replay, hc]

/-- The ways in which a run can go: nothing is called when the descriptor cannot be read or the
request is cancelled at its start, decoding is the only call when it fails, and otherwise the calls
that follow the script stand between one decoding and one closing. -/
inductive Lifecycle [Scale σ] (U : B.Undisturbed) (settings : Settings)
    (interruption : Interruption σ) (source : ByteArray) (descriptor : String) : Run B → Prop where
  | unreadable {e : ProcessError} (refused : Request.read settings descriptor = .error e) :
      Lifecycle U settings interruption source descriptor ⟨[], .error e⟩
  | cancelled {request : Request} (read : Request.read settings descriptor = .ok request)
      (atStart : interruption.atStart = true) :
      Lifecycle U settings interruption source descriptor ⟨[], .error .cancelled⟩
  | undecodable {request : Request} {e : BackendError}
      (read : Request.read settings descriptor = .ok request)
      (started : interruption.atStart = false) (refused : B.load source = .error e) :
      Lifecycle U settings interruption source descriptor
        ⟨[.load source.size], .error (.ofBackend e)⟩
  | opened {request : Request} {handle : B.Handle} {made : List (Call σ)}
      {result : Except ProcessError (Output B.Body)}
      (read : Request.read settings descriptor = .ok request)
      (started : interruption.atStart = false) (loaded : B.load source = .ok handle)
      (unclosed : Call.close ∉ made)
      (follows : Request.Follows (request.script U settings handle) handle made result) :
      Lifecycle U settings interruption source descriptor
        ⟨.load source.size :: made ++ [.close], result⟩

/-- The bench on which a source has just been decoded. -/
def Workbench.opened (interruption : Interruption σ) (bytes : Nat) (handle : B.Handle) :
    Workbench B :=
  ⟨handle, [.load bytes], interruption.during [.load bytes]⟩

theorem process_opened [Scale σ] {settings : Settings} {interruption : Interruption σ}
    {source : ByteArray} {descriptor : String} {request : Request} {handle : B.Handle}
    (hread : Request.read settings descriptor = .ok request)
    (hstart : interruption.atStart = false) (hload : B.load source = .ok handle) :
    process B settings interruption source descriptor
      = let outcome := (request.work (B := B) settings interruption source.size).run.run
          (.opened interruption source.size handle)
        ⟨outcome.2.calls ++ [.close], outcome.1⟩ := by
  simp only [process, hread, hstart, hload, Bool.false_eq_true, if_false]
  rfl

theorem process_follows [Scale σ] (U : B.Undisturbed) (settings : Settings)
    (interruption : Interruption σ) (source : ByteArray) (descriptor : String) :
    Lifecycle U settings interruption source descriptor
      (process B settings interruption source descriptor) := by
  unfold process
  cases hread : Request.read settings descriptor with
  | error e => exact .unreadable hread
  | ok request =>
    dsimp only
    cases hstart : interruption.atStart with
    | true => exact .cancelled hread hstart
    | false =>
      simp only [Bool.false_eq_true, if_false]
      cases hload : B.load source with
      | error e => exact .undecodable hread hstart hload
      | ok handle =>
        have hwork := Request.work_follows U request settings interruption source.size
          ⟨handle, [.load source.size], interruption.during [.load source.size]⟩
        dsimp only at hwork ⊢
        rcases hrun : (request.work (B := B) settings interruption source.size).run.run
          ⟨handle, [.load source.size], interruption.during [.load source.size]⟩ with
          ⟨result, last⟩
        rw [hrun] at hwork
        obtain ⟨made, hcalls, hfollows⟩ := hwork
        have hunclosed : Call.close ∉ made := fun hmem =>
          request.close_notMem_script U settings handle (hfollows.made_prefix.subset hmem)
        dsimp only at hcalls ⊢
        rw [hcalls]
        exact .opened hread hstart hload hunclosed hfollows

theorem Lifecycle.load_alone [Scale σ] {U : B.Undisturbed} {settings : Settings}
    {interruption : Interruption σ} {source : ByteArray} {descriptor : String} {run : Run B}
    (h : Lifecycle U settings interruption source descriptor run) :
    run.calls = [.load source.size] ↔ run.calls ≠ [] ∧ ∃ e, B.load source = .error e := by
  cases h with
  | unreadable => simp only [List.ne_cons_self, ne_eq, not_true_eq_false, false_and]
  | cancelled => simp only [List.ne_cons_self, ne_eq, not_true_eq_false, false_and]
  | undecodable _ _ refused => exact ⟨fun _ => ⟨List.cons_ne_nil _ _, _, refused⟩, fun _ => rfl⟩
  | opened _ _ loaded _ _ =>
    constructor
    · intro htrace
      have hlength := congrArg List.length htrace
      simp only [List.length_append, List.length_cons, List.length_nil] at hlength
      omega
    · rintro ⟨-, e, herror⟩
      cases loaded.symm.trans herror

theorem Lifecycle.closes_of_ok [Scale σ] {U : B.Undisturbed} {settings : Settings}
    {interruption : Interruption σ} {source : ByteArray} {descriptor : String} {run : Run B}
    (h : Lifecycle U settings interruption source descriptor run) {output : Output B.Body}
    (hok : run.result = .ok output) :
    ∃ made, run.calls = .load source.size :: made ++ [.close] ∧ .close ∉ made := by
  cases h with
  | unreadable | cancelled => cases hok
  | undecodable => cases hok
  | opened _ _ _ unclosed _ => exact ⟨_, rfl, unclosed⟩

/-- Every run has one of these lifecycles, whatever the backend does and whenever the request is
cancelled; decoding stands alone exactly when it was tried and failed. -/
theorem process_lifecycle [Scale σ] (U : B.Undisturbed) (settings : Settings)
    (interruption : Interruption σ) (source : ByteArray) (descriptor : String) :
    let run := process B settings interruption source descriptor
    Lifecycle U settings interruption source descriptor run ∧
      (run.calls = [.load source.size] ↔ run.calls ≠ [] ∧ ∃ e, B.load source = .error e) := by
  have hlife := process_follows U settings interruption source descriptor
  exact ⟨hlife, hlife.load_alone⟩

/-- No canvas can be had of the backend. -/
def refuseCanvas : Call Rat → Option BackendError
  | .edit (.embed ..) => some (.tooLarge "no canvas")
  | _ => none

/-- A run whose second change fails: what its script goes on with is not called any more, only the
closing is, and the answer is about the failure. -/
theorem process_lifecycle_of_refused :
    let source : Sketch := ⟨⟨4, 2, false⟩, .png⟩
    let B : Backend Rat := rehearsal source refuseCanvas
    let handle : B.Handle := ({ sketch := source } : Rehearsed)
    let run := process B {} .never ⟨#[]⟩ "resize,m_pad,w_2,h_2"
    ∃ request, Request.read {} "resize,m_pad,w_2,h_2" = .ok request ∧
      (request.script B.undisturbed {} handle).map Call.name = ["resize_axes", "embed", "encode"] ∧
      run.calls.map Call.name = ["load", "resize_axes", "embed", "close"] ∧
      run.result = .error (.param "image too large: no canvas") := by
  intro source B handle run
  have hread : Request.read {} "resize,m_pad,w_2,h_2"
      = .ok (.transform [.resize { w := 2, h := 2, mode := .pad }] none) := by rfl
  have hnames : run.calls.map Call.name = ["load", "resize_axes", "embed", "close"] := by
    decide +kernel
  refine ⟨_, hread, by rfl, hnames, ?_⟩
  obtain ⟨hlife, -⟩ := process_lifecycle B.undisturbed {} .never ⟨#[]⟩ "resize,m_pad,w_2,h_2"
  change Lifecycle _ _ _ _ _ run at hlife
  generalize run = run at hlife hnames ⊢
  cases hlife with
  | unreadable refused => cases hread.symm.trans refused
  | cancelled _ atStart => cases atStart
  | undecodable _ _ refused => cases refused
  | @opened request opened made result read _ loaded _ follows =>
    cases hread.symm.trans read
    cases loaded
    have hmade : made.length = 2 := by
      have hlength := congrArg List.length hnames
      simp only [List.length_map, List.length_append, List.length_cons, List.length_nil] at hlength
      omega
    have hcalls := List.prefix_iff_eq_take.mp follows.made_prefix
    rw [hmade] at hcalls
    have hfails : B.replay made handle = .error (.tooLarge "no canvas") := by
      rw [hcalls]
      rfl
    exact follows.failure _ hfails

end ImagePipeline
