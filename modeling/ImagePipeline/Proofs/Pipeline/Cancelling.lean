import ImagePipeline.Pipeline.Rehearsal
import ImagePipeline.Proofs.Geometry.UsablePlan
import ImagePipeline.Proofs.Pipeline.Lifecycle

/-!
# Cancelled requests

A run looks at the cancellation before every step and before encoding, so one that is cancelled
stops at the next look: the step in progress makes the rest of its calls, no other step begins, and
what is not looked at any more has no effect (`process_heeds`). Which look is the next is told by
`Interruption.RaisedBy`; the workbench keeps to it through every call (`Workbench.Tracks`).
-/

namespace ImagePipeline

variable {σ : Type} {B : Backend σ}

/-! ### Looks -/

/-- A request of so many steps has been cancelled by the look that is taken after these calls, with
so many steps left: during one of the calls, or in front of that look or of an earlier one. -/
def Interruption.RaisedBy (interruption : Interruption σ) (total : Nat) (made : List (Call σ))
    (left : Nat) : Prop :=
  (∃ calls, calls ≠ [] ∧ calls <+: made ∧ interruption.during calls = true) ∨
    ∃ look, left ≤ look ∧ look ≤ total ∧ interruption.between look = true

namespace Interruption

variable {interruption : Interruption σ} {total left : Nat} {made : List (Call σ)}

theorem RaisedBy.mono {later : List (Call σ)} {fewer : Nat}
    (h : interruption.RaisedBy total made left) (hcalls : made <+: later) (hleft : fewer ≤ left) :
    interruption.RaisedBy total later fewer := by
  rcases h with ⟨calls, hne, hmade, hduring⟩ | ⟨look, hlook, htotal, hbetween⟩
  · exact .inl ⟨calls, hne, hmade.trans hcalls, hduring⟩
  · exact .inr ⟨look, Nat.le_trans hleft hlook, htotal, hbetween⟩

theorem raisedBy_call (call : Call σ) :
    interruption.RaisedBy total (made ++ [call]) left ↔
      interruption.RaisedBy total made left ∨ interruption.during (made ++ [call]) = true := by
  constructor
  · rintro (⟨calls, hne, hprefix, hduring⟩ | hlook)
    · rcases List.prefix_concat_iff.mp hprefix with rfl | hmade
      · exact .inr hduring
      · exact .inl (.inl ⟨calls, hne, hmade, hduring⟩)
    · exact .inl (.inr hlook)
  · rintro (h | hduring)
    · exact h.mono (List.prefix_append made [call]) (Nat.le_refl left)
    · exact .inl ⟨_, List.concat_ne_nil call made, List.prefix_refl _, hduring⟩

theorem raisedBy_look (hleft : left ≤ total) :
    interruption.RaisedBy total made left ↔
      interruption.RaisedBy total made (left + 1) ∨ interruption.between left = true := by
  constructor
  · rintro (hcall | ⟨look, hlook, htotal, hbetween⟩)
    · exact .inl (.inl hcall)
    · rcases Nat.eq_or_lt_of_le hlook with rfl | hearlier
      · exact .inr hbetween
      · exact .inl (.inr ⟨look, hearlier, htotal, hbetween⟩)
  · rintro (h | hbetween)
    · exact h.mono (List.prefix_refl made) (Nat.le_succ left)
    · exact .inr ⟨left, Nat.le_refl left, hleft, hbetween⟩

theorem not_raisedBy_never : ¬ (never : Interruption σ).RaisedBy total made left := by
  rintro (⟨_, _, _, hduring⟩ | ⟨_, _, _, hbetween⟩)
  · cases hduring
  · cases hbetween

end Interruption

/-- The bench knows of a cancellation by the look before the next one. -/
def Workbench.Tracks (bench : Workbench B) (interruption : Interruption σ) (total left : Nat) :
    Prop :=
  bench.cancelled = true ↔ interruption.RaisedBy total bench.calls left

namespace Workbench.Tracks

variable {interruption : Interruption σ} {total left : Nat} {bench : Workbench B}

theorem iff (h : bench.Tracks interruption total left) :
    bench.cancelled = true ↔ interruption.RaisedBy total bench.calls left := h

theorem opened (interruption : Interruption σ) (total bytes : Nat) (handle : B.Handle) :
    (Workbench.opened interruption bytes handle).Tracks interruption total (total + 1) := by
  constructor
  · intro hduring
    exact .inl ⟨[.load bytes], List.cons_ne_nil _ _, List.prefix_refl _, hduring⟩
  · rintro (⟨calls, hne, hprefix, hduring⟩ | ⟨look, hlook, htotal, -⟩)
    · have hload : calls <+: [] ++ [.load bytes] := hprefix
      rcases List.prefix_concat_iff.mp hload with rfl | hnil
      · exact hduring
      · exact absurd (List.prefix_nil.mp hnil) hne
    · omega

theorem never_iff : bench.Tracks .never total left ↔ bench.cancelled = false := by
  unfold Tracks
  simp only [Interruption.not_raisedBy_never, iff_false, Bool.not_eq_true]

theorem record (h : bench.Tracks interruption total left) (handle : B.Handle) (call : Call σ) :
    (⟨handle, bench.calls ++ [call],
      bench.cancelled || interruption.during (bench.calls ++ [call])⟩ : Workbench B).Tracks
        interruption total left := by
  unfold Tracks
  rw [Bool.or_eq_true, Interruption.raisedBy_call, h.iff]

end Workbench.Tracks

namespace Task

variable {interruption : Interruption σ} {total left : Nat} {before : Workbench B}

theorem look_passes (htracks : before.Tracks interruption total (left + 1)) (hleft : left ≤ total)
    (hunraised : ¬ interruption.RaisedBy total before.calls left) :
    ∃ after : Workbench B, (checkCancelled interruption left).run.run before = (.ok (), after) ∧
      after.handle = before.handle ∧ after.calls = before.calls ∧
        after.Tracks interruption total left := by
  have hraised : (before.cancelled || interruption.between left) = false := by
    rw [← Bool.not_eq_true, Bool.or_eq_true, htracks.iff, ← Interruption.raisedBy_look hleft]
    exact hunraised
  refine ⟨{ before with cancelled := false }, ?_, rfl, rfl, ?_⟩
  · rw [run_checkCancelled, hraised]
    rfl
  · exact ⟨fun h => absurd h Bool.false_ne_true, fun h => absurd h hunraised⟩

theorem look_finds (htracks : before.Tracks interruption total (left + 1)) (hleft : left ≤ total)
    (hraised : interruption.RaisedBy total before.calls left) :
    (checkCancelled interruption left).run.run before
      = (.error .cancelled, { before with cancelled := true }) := by
  have hseen : (before.cancelled || interruption.between left) = true := by
    rw [Bool.or_eq_true, htracks.iff, ← Interruption.raisedBy_look hleft]
    exact hraised
  rw [run_checkCancelled, hseen]
  rfl

end Task

/-! ### Backends that never fail -/

/-- A watermark is only due on a handle that has an alpha channel or has just been given one. -/
def Backend.Due (B : Backend σ) (change : Edit σ) (handle : B.Handle) : Prop :=
  match change with
  | .watermark _ =>
    (B.shape handle).hasAlpha = true ∨ ∃ before, B.edit .addAlpha before = .ok handle
  | _ => True

/-- No call fails that is due. -/
structure Backend.Unfailing (B : Backend σ) : Prop where
  load : ∀ source, ∃ handle, B.load source = .ok handle
  edit : ∀ change handle, B.Due change handle → ∃ changed, B.edit change handle = .ok changed
  encode : ∀ format quality handle, ∃ encoded, B.encode format quality handle = .ok encoded

theorem rehearsal_unfailing [Scale σ] (source : Sketch) :
    (rehearsal (σ := σ) source fun _ => none).Unfailing := by
  refine ⟨fun _ => ⟨_, rfl⟩, ?_, fun _ _ _ => ⟨_, rfl⟩⟩
  intro change handle hdue
  cases change with
  | watermark params =>
    have halpha : handle.sketch.shape.hasAlpha = true := by
      rcases hdue with halpha | ⟨before, hadded⟩
      · exact halpha
      · cases hadded
        rfl
    refine ⟨handle, ?_⟩
    simp only [rehearsal, Sketch.takes, halpha]
    rfl
  | resize | resizeAxes | thumbnail | embed | addAlpha | blur => exact ⟨_, rfl⟩

def Step.Plannable (step : Step) (shape : Shape) : Prop :=
  match step with
  | .resize options => ∃ plan, options.plan shape = .ok plan
  | .watermark _ => True
  | .blur _ => True

theorem Step.resize_of_unplannable {step : Step} {shape : Shape} (h : ¬ step.Plannable shape) :
    ∃ options e, step = .resize options ∧ options.plan shape = .error e := by
  cases step with
  | resize options =>
    cases hplan : options.plan shape with
    | ok plan => exact absurd ⟨plan, hplan⟩ h
    | error e => exact ⟨options, e, rfl, hplan⟩
  | watermark params => exact absurd trivial h
  | blur options => exact absurd trivial h

namespace Backend.Undisturbed

variable (U : B.Undisturbed)

/-- The second bench is what the first one becomes when these changes are made. -/
structure Advances (changes : List (Edit σ)) (before after : Workbench B) : Prop where
  handle_eq : after.handle = U.afterAll changes before.handle
  calls_eq : after.calls = before.calls ++ changes.map .edit

namespace Advances

variable {U} {before middle after : Workbench B}

theorem same (hhandle : after.handle = before.handle) (hcalls : after.calls = before.calls) :
    U.Advances [] before after :=
  ⟨hhandle, hcalls.trans (List.append_nil _).symm⟩

theorem trans {first second : List (Edit σ)} (hfirst : U.Advances first before middle)
    (hsecond : U.Advances second middle after) : U.Advances (first ++ second) before after := by
  constructor
  · rw [hsecond.handle_eq, hfirst.handle_eq, afterAll_append]
  · rw [hsecond.calls_eq, hfirst.calls_eq, List.map_append, List.append_assoc]

end Advances

variable [Scale σ]

/-- Every resize can be planned when its turn comes. -/
def Plans : List Step → B.Handle → Prop
  | [], _ => True
  | step :: rest, handle =>
    step.Plannable (B.shape handle) ∧
      Plans rest (U.afterAll (U.stepEdits step handle) handle)

/-- The calls of a run when it has carried out these steps. -/
def callsThrough (bytes : Nat) (steps : List Step) (handle : B.Handle) : List (Call σ) :=
  .load bytes :: (U.stepsEdits steps handle).map .edit

theorem close_notMem_callsThrough (bytes : Nat) (steps : List Step) (handle : B.Handle) :
    Call.close ∉ U.callsThrough bytes steps handle := by
  simp [callsThrough]

theorem callsThrough_prefix (bytes : Nat) {first second : List Step} (h : first <+: second)
    (handle : B.Handle) :
    U.callsThrough bytes first handle <+: U.callsThrough bytes second handle := by
  obtain ⟨rest, rfl⟩ := h
  unfold callsThrough
  rw [stepsEdits_append, List.map_append]
  exact List.prefix_append (U.callsThrough bytes first handle) _

end Backend.Undisturbed

namespace Task

section

variable {interruption : Interruption σ} {total left : Nat} {before : Workbench B}
  (hB : B.Unfailing)
include hB

theorem perform_through {change : Edit σ} (hdue : B.Due change before.handle)
    (htracks : before.Tracks interruption total left) :
    ∃ after : Workbench B, (perform interruption change).run.run before = (.ok (), after) ∧
      after.Tracks interruption total left := by
  obtain ⟨changed, hedit⟩ := hB.edit change before.handle hdue
  rw [run_perform, hedit]
  exact ⟨_, rfl, htracks.record changed (.edit change)⟩

variable [Scale σ]

theorem followPlan_through (plan : List GeometryStep)
    (htracks : before.Tracks interruption total left) :
    ∃ after : Workbench B, (followPlan interruption plan).run.run before = (.ok (), after) ∧
      after.Tracks interruption total left := by
  induction plan generalizing before with
  | nil => exact ⟨before, rfl, htracks⟩
  | cons step rest ih =>
    have hdue : B.Due (changeOf (B.shape before.handle) step) before.handle := by
      cases step <;> trivial
    obtain ⟨middle, hperform, hmiddle⟩ := perform_through hB hdue htracks
    rw [run_followPlan_cons, run_bind_ok hperform]
    exact ih hmiddle

/-- A step whose resize can be planned makes all of its calls, cancelled or not. -/
theorem step_through (U : B.Undisturbed) {step : Step}
    (hplans : step.Plannable (B.shape before.handle))
    (htracks : before.Tracks interruption total left) :
    ∃ after : Workbench B, (Task.step interruption step).run.run before = (.ok (), after) ∧
      U.Advances (U.stepEdits step before.handle) before after ∧
      after.Tracks interruption total left := by
  have hrun : ∃ after : Workbench B,
      (Task.step interruption step).run.run before = (.ok (), after) ∧
        after.Tracks interruption total left := by
    cases step with
    | resize options =>
      obtain ⟨plan, hplan⟩ := hplans
      have hresize := run_resize interruption options before
      rw [hplan] at hresize
      obtain ⟨after, hfollow, hafter⟩ := followPlan_through hB plan htracks
      exact ⟨after, hresize.trans hfollow, hafter⟩
    | watermark params =>
      have hwatermark := run_watermark interruption params before
      cases halpha : (B.shape before.handle).hasAlpha with
      | true =>
        rw [halpha] at hwatermark
        have hdue : B.Due (.watermark params) before.handle := .inl halpha
        obtain ⟨after, hperform, hafter⟩ := perform_through hB hdue htracks
        exact ⟨after, hwatermark.trans hperform, hafter⟩
      | false =>
        rw [halpha] at hwatermark
        have hplain : B.Due .addAlpha before.handle := trivial
        obtain ⟨middle, hfirst, hmiddle⟩ := perform_through hB hplain htracks
        have hdue : B.Due (.watermark params) middle.handle :=
          .inr ⟨before.handle, edit_of_perform interruption hfirst⟩
        obtain ⟨after, hperform, hafter⟩ := perform_through hB hdue hmiddle
        exact ⟨after, hwatermark.trans ((run_bind_ok hfirst).trans hperform), hafter⟩
    | blur options =>
      have hdue : B.Due (.blur options.sigma options.minAmplitude) before.handle := trivial
      exact perform_through hB hdue htracks
  obtain ⟨after, hok, hafter⟩ := hrun
  -- That the step succeeds leaves only one of its outcomes, which tells its calls.
  have houtcome := step_outcome interruption U step before
  rw [hok] at houtcome
  cases houtcome with
  | finished calls replayed =>
    exact ⟨after, hok, ⟨(U.afterAll_of_replay replayed).symm, calls⟩, hafter⟩

theorem steps_cons_through (U : B.Undisturbed) {step : Step} {rest : List Step}
    (hplans : step.Plannable (B.shape before.handle)) (htotal : rest.length + 1 ≤ total)
    (htracks : before.Tracks interruption total (rest.length + 1 + 1))
    (hunraised : ¬ interruption.RaisedBy total before.calls (rest.length + 1)) :
    ∃ after : Workbench B,
      (Task.steps interruption (step :: rest)).run.run before
          = (Task.steps interruption rest).run.run after ∧
        U.Advances (U.stepEdits step before.handle) before after ∧
        after.Tracks interruption total (rest.length + 1) := by
  obtain ⟨looked, hlook, hhandle, hcalls, hlooked⟩ := look_passes htracks htotal hunraised
  rw [← hhandle] at hplans
  obtain ⟨after, hstep, hadvances, htracked⟩ := step_through hB U hplans hlooked
  rw [hhandle] at hadvances
  have hsame : U.Advances [] before looked := .same hhandle hcalls
  exact ⟨after, (run_bind_ok hlook).trans (run_bind_ok hstep), hsame.trans hadvances, htracked⟩

/-- Steps are all carried out when the request is not cancelled by the look at any of them. -/
theorem steps_through (U : B.Undisturbed) {done todo : List Step}
    (hplans : U.Plans done before.handle) (htotal : (done ++ todo).length ≤ total)
    (htracks : before.Tracks interruption total ((done ++ todo).length + 1))
    (hunraised : ∀ first rest, done = first ++ rest → rest ≠ [] →
      ¬ interruption.RaisedBy total
        (before.calls ++ (U.stepsEdits first before.handle).map .edit) (rest ++ todo).length) :
    ∃ after : Workbench B,
      (Task.steps interruption (done ++ todo)).run.run before
          = (Task.steps interruption todo).run.run after ∧
        U.Advances (U.stepsEdits done before.handle) before after ∧
        after.Tracks interruption total (todo.length + 1) := by
  induction done generalizing before with
  | nil => exact ⟨before, rfl, .same rfl rfl, htracks⟩
  | cons step rest ih =>
    obtain ⟨hplannable, hrest⟩ := hplans
    have hlook : ¬ interruption.RaisedBy total before.calls ((rest ++ todo).length + 1) := by
      have hfirst := hunraised [] (step :: rest) rfl (List.cons_ne_nil _ _)
      simpa only [Backend.Undisturbed.stepsEdits, List.map_nil, List.append_nil,
        List.cons_append, List.length_cons] using hfirst
    obtain ⟨middle, hstep, hmade, hmiddle⟩ :=
      steps_cons_through hB U hplannable htotal htracks hlook
    -- The looks at the other steps come after the calls of this one.
    have hlooks : ∀ first others, rest = first ++ others → others ≠ [] →
        ¬ interruption.RaisedBy total
          (middle.calls ++ (U.stepsEdits first middle.handle).map .edit)
          (others ++ todo).length := by
      intro first others hsplit hothers
      have hnext := hunraised (step :: first) others (congrArg (step :: ·) hsplit) hothers
      rw [hmade.calls_eq, hmade.handle_eq]
      simpa only [Backend.Undisturbed.stepsEdits, List.map_append, List.append_assoc] using hnext
    rw [← hmade.handle_eq] at hrest
    obtain ⟨after, hrun, hall, htracked⟩ := ih hrest (Nat.le_of_succ_le htotal) hmiddle hlooks
    rw [hmade.handle_eq] at hall
    exact ⟨after, hstep.trans hrun, hmade.trans hall, htracked⟩

theorem steps_unplanned (U : B.Undisturbed) {done : List Step} (todo : List Step)
    (hfresh : before.cancelled = false) (hplans : ¬ U.Plans done before.handle) :
    ∃ first step rest e, ∃ after : Workbench B, done = first ++ step :: rest ∧
      (Task.steps .never (done ++ todo)).run.run before = (.error e, after) ∧
        U.Advances (U.stepsEdits first before.handle) before after := by
  induction done generalizing before with
  | nil => exact absurd trivial hplans
  | cons step rest ih =>
    let total := (rest ++ todo).length + 1
    have hunraised : ¬ (Interruption.never : Interruption σ).RaisedBy total before.calls total :=
      Interruption.not_raisedBy_never
    have htracks : before.Tracks .never total (total + 1) :=
      Workbench.Tracks.never_iff.mpr hfresh
    -- The first step that cannot be planned is this one or a later one.
    by_cases hplannable : step.Plannable (B.shape before.handle)
    · obtain ⟨middle, hstep, hmade, hmiddle⟩ :=
        steps_cons_through hB U hplannable (Nat.le_refl total) htracks hunraised
      have hrest : ¬ U.Plans rest middle.handle := by
        rw [hmade.handle_eq]
        exact fun h => hplans ⟨hplannable, h⟩
      obtain ⟨first, last, others, e, after, hsplit, hrun, hall⟩ :=
        ih (Workbench.Tracks.never_iff.mp hmiddle) hrest
      rw [hmade.handle_eq] at hall
      exact ⟨step :: first, last, others, e, after, congrArg (step :: ·) hsplit,
        hstep.trans hrun, hmade.trans hall⟩
    · obtain ⟨options, e, rfl, hplan⟩ := Step.resize_of_unplannable hplannable
      obtain ⟨looked, hlook, hhandle, hcalls, -⟩ :=
        look_passes htracks (Nat.le_refl total) hunraised
      have hresize := run_resize .never options looked
      rw [hhandle, hplan] at hresize
      exact ⟨[], .resize options, rest, .ofPlan e, looked, rfl,
        (run_bind_ok hlook).trans (run_bind_error hresize), .same hhandle hcalls⟩

omit hB in
/-- The next look is the one in front of the next step or, behind the last, in front of encoding. -/
theorem steps_stopped {α : Type} {todo : List Step} (htotal : todo.length ≤ total)
    (htracks : before.Tracks interruption total (todo.length + 1))
    (hraised : interruption.RaisedBy total before.calls todo.length) (next : Unit → Task B α) :
    (Task.steps interruption todo >>= fun _ => checkCancelled interruption 0 >>= next).run.run
      before = (.error .cancelled, { before with cancelled := true }) := by
  have hlook := look_finds htracks htotal hraised
  cases todo with
  | nil =>
    have hnone : (Task.steps interruption [] : Task B Unit).run.run before = (.ok (), before) := rfl
    exact (run_bind_ok hnone).trans (run_bind_error hlook)
  | cons step rest => exact run_bind_error (run_bind_error hlook)

end

end Task

/-! ### Runs -/

section

variable [Scale σ] {settings : Settings} {interruption : Interruption σ} {source : ByteArray}
  {descriptor : String}

theorem Request.run_work (steps : List Step) (format : Option OutputFormat) (bytes : Nat)
    (before : Workbench B) :
    ((Request.transform steps format).work (B := B) settings interruption bytes).run.run before
      = (Task.steps interruption steps >>= fun _ => Task.checkCancelled interruption 0 >>= fun _ =>
          Task.encode interruption format settings.quality >>= fun encoded =>
            pure (Output.image encoded)).run.run before := rfl

variable (hB : B.Unfailing) (U : B.Undisturbed) {handle : B.Handle} {done todo : List Step}
  {format : Option OutputFormat} (hload : B.load source = .ok handle)
  (hread : Request.read settings descriptor = .ok (.transform (done ++ todo) format))
include hB hload hread

theorem process_through (hstart : interruption.atStart = false) (hplans : U.Plans done handle)
    (hunraised : ∀ first rest, done = first ++ rest → rest ≠ [] →
      ¬ interruption.RaisedBy (done ++ todo).length (U.callsThrough source.size first handle)
        (rest ++ todo).length) :
    ∃ middle : Workbench B,
      (process B settings interruption source descriptor
        = let outcome := ((Request.transform todo format).work (B := B) settings interruption
            source.size).run.run middle
          ⟨outcome.2.calls ++ [.close], outcome.1⟩) ∧
        middle.handle = U.afterAll (U.stepsEdits done handle) handle ∧
        middle.calls = U.callsThrough source.size done handle ∧
        middle.Tracks interruption (done ++ todo).length (todo.length + 1) := by
  obtain ⟨middle, hrun, hadvances, htracks⟩ :=
    Task.steps_through hB U hplans (Nat.le_refl _)
      (Workbench.Tracks.opened interruption (done ++ todo).length source.size handle) hunraised
  refine ⟨middle, ?_, hadvances.handle_eq, hadvances.calls_eq, htracks⟩
  rw [process_opened hread hstart hload, Request.run_work, Request.run_work,
    Task.run_bind_congr hrun]

theorem process_stopped (hstart : interruption.atStart = false) (hplans : U.Plans done handle)
    (hunraised : ∀ first rest, done = first ++ rest → rest ≠ [] →
      ¬ interruption.RaisedBy (done ++ todo).length (U.callsThrough source.size first handle)
        (rest ++ todo).length)
    (hraised : interruption.RaisedBy (done ++ todo).length (U.callsThrough source.size done handle)
      todo.length) :
    process B settings interruption source descriptor
      = ⟨U.callsThrough source.size done handle ++ [.close], .error .cancelled⟩ := by
  obtain ⟨middle, hrun, -, hcalls, htracks⟩ :=
    process_through hB U hload hread hstart hplans hunraised
  have htotal : todo.length ≤ (done ++ todo).length := by
    rw [List.length_append]
    exact Nat.le_add_left _ _
  rw [← hcalls] at hraised
  rw [hrun, Request.run_work, Task.steps_stopped htotal htracks hraised]
  dsimp only
  rw [hcalls]

theorem process_unplanned (hplans : ¬ U.Plans done handle) :
    ∃ first step rest e, done = first ++ step :: rest ∧
      process B settings .never source descriptor
        = ⟨U.callsThrough source.size first handle ++ [.close], .error e⟩ := by
  let before : Workbench B := .opened .never source.size handle
  have hbefore : ¬ U.Plans done before.handle := hplans
  obtain ⟨first, step, rest, e, after, hsplit, hrun, hadvances⟩ :=
    Task.steps_unplanned hB U todo rfl hbefore
  refine ⟨first, step, rest, e, hsplit, ?_⟩
  have hmade : after.calls = U.callsThrough source.size first handle := hadvances.calls_eq
  have hstart : (Interruption.never : Interruption σ).atStart = false := rfl
  rw [process_opened hread hstart hload, Request.run_work, Task.run_bind_error hrun]
  dsimp only
  rw [hmade]

omit hread in
theorem process_completed {steps : List Step}
    (hread : Request.read settings descriptor = .ok (.transform steps format))
    (hstart : interruption.atStart = false) (hplans : U.Plans steps handle)
    (hunraised : ¬ interruption.RaisedBy steps.length (U.callsThrough source.size steps handle) 0)
    {last : B.Handle} (hlast : U.afterAll (U.stepsEdits steps handle) handle = last)
    {output : OutputFormat} (houtput : OutputFormat.resolve format (B.format last) = output)
    {encoded : Encoded B.Body} (hencode : B.encode output settings.quality last = .ok encoded) :
    process B settings interruption source descriptor
      = ⟨U.callsThrough source.size steps handle ++ [.encode output settings.quality, .close],
          .ok (.image encoded)⟩ := by
  have hread' : Request.read settings descriptor = .ok (.transform (steps ++ []) format) := by
    rw [List.append_nil]
    exact hread
  have hlooks : ∀ first rest, steps = first ++ rest → rest ≠ [] →
      ¬ interruption.RaisedBy (steps ++ []).length (U.callsThrough source.size first handle)
        (rest ++ []).length := by
    intro first rest hsplit _ hraised
    have hprefix : first <+: steps := ⟨rest, hsplit.symm⟩
    rw [List.append_nil] at hraised
    exact hunraised (hraised.mono (U.callsThrough_prefix _ hprefix handle) (Nat.zero_le _))
  obtain ⟨middle, hrun, hhandle, hcalls, htracks⟩ :=
    process_through hB U hload hread' hstart hplans hlooks
  rw [← hcalls, ← List.append_nil steps] at hunraised
  obtain ⟨looked, hlook, hsame, hkept, -⟩ :=
    Task.look_passes htracks (Nat.zero_le _) hunraised
  rw [List.length_nil] at hlook
  have hfinal := Task.run_encode interruption format settings.quality looked
  simp only [hsame, hhandle, hlast, houtput, hencode, hkept, hcalls] at hfinal
  have hnone : (Task.steps interruption [] : Task B Unit).run.run middle = (.ok (), middle) := rfl
  rw [hrun, Request.run_work, Task.run_bind_ok hnone, Task.run_bind_ok hlook,
    Task.run_bind_ok hfinal]
  exact congrArg (fun calls => Run.mk calls _) (List.append_assoc _ _ _)

end

/-! ### Failed calls -/

/-- A call that fails is answered by its own failure. -/
structure Run.Blames (run : Run B) (source : ByteArray) : Prop where
  load : run.calls ≠ [] → ∀ e, B.load source = .error e → run.result = .error (.ofBackend e)
  call : ∀ handle, B.load source = .ok handle → ∀ first call rest middle e,
    run.calls = .load source.size :: first ++ call :: rest → B.replay first handle = .ok middle →
      B.replay [call] middle = .error e → run.result = .error (.ofBackend e)

theorem Lifecycle.blames [Scale σ] {U : B.Undisturbed} {settings : Settings}
    {interruption : Interruption σ} {source : ByteArray} {descriptor : String} {run : Run B}
    (h : Lifecycle U settings interruption source descriptor run) : run.Blames source := by
  cases h with
  | unreadable | cancelled =>
    refine ⟨fun hcalls => absurd rfl hcalls, ?_⟩
    intro _ _ _ _ _ _ _ hcalls
    cases hcalls
  | undecodable _ _ refused =>
    refine ⟨fun _ e he => ?_, fun _ hload => ?_⟩
    · cases refused.symm.trans he
      rfl
    · cases refused.symm.trans hload
  | @opened request handle made result read started loaded unclosed follows =>
    refine ⟨fun _ e he => ?_, ?_⟩
    · cases loaded.symm.trans he
    · intro handle' hload first call rest middle e hcalls hfirst hcall
      cases loaded.symm.trans hload
      have hopen : Call.close ≠ call := by
        rintro rfl
        cases hcall
      obtain ⟨others, rfl⟩ := mem_of_concat hopen (List.cons.inj hcalls).2
      refine follows.failure e ?_
      rw [Backend.replay_append_ok hfirst, ← List.singleton_append, Backend.replay_append, hcall]
      rfl

/-! ### Runs that are cancelled -/

/-- The run makes these calls and another one on the same handle. -/
def Run.GoesBeyond (run : Run B) (made : List (Call σ)) : Prop :=
  ∃ call, call ≠ .close ∧ made ++ [call] <+: run.calls

/-- What a cancellation does to a run that would carry out these steps, told by the run that is
never cancelled. -/
structure Run.HeedsSteps [Scale σ] (run quiet : Run B) (U : B.Undisturbed)
    (interruption : Interruption σ) (bytes : Nat) (handle : B.Handle) (steps : List Step) :
    Prop where
  /-- Cancelled by the first look: no step begins. -/
  at_first : interruption.RaisedBy steps.length [.load bytes] steps.length →
    run = ⟨[.load bytes, .close], .error .cancelled⟩
  /-- Cancelled between the looks before and after a step, such as during one of its calls: the step
  makes all of its calls, and nothing begins after it. -/
  in_step : ∀ done step todo, steps = done ++ step :: todo →
    quiet.GoesBeyond (U.callsThrough bytes done handle) →
      ¬ interruption.RaisedBy steps.length (U.callsThrough bytes done handle) (todo.length + 1) →
        interruption.RaisedBy steps.length (U.callsThrough bytes (done ++ [step]) handle)
            todo.length →
          run = ⟨U.callsThrough bytes (done ++ [step]) handle ++ [.close], .error .cancelled⟩
  /-- Not cancelled by the last look: encoding is not disturbed. -/
  in_encode : quiet.GoesBeyond (U.callsThrough bytes steps handle) →
    ¬ interruption.RaisedBy steps.length (U.callsThrough bytes steps handle) 0 →
      run = quiet ∧ ∃ encoded, run.result = .ok (.image encoded)

def Run.Heeds [Scale σ] (run quiet : Run B) (U : B.Undisturbed) (interruption : Interruption σ)
    (bytes : Nat) (handle : B.Handle) : Request → Prop
  | .info => run = quiet ∧ ∃ report, run.result = .ok (.info report)
  | .transform steps _ => run.HeedsSteps quiet U interruption bytes handle steps

section

variable [Scale σ] {settings : Settings} {interruption : Interruption σ} {source : ByteArray}
  {descriptor : String} {handle : B.Handle} (hload : B.load source = .ok handle)
include hload

theorem process_report (hread : Request.read settings descriptor = .ok .info)
    (hstart : interruption.atStart = false) :
    process B settings interruption source descriptor
      = ⟨[.load source.size, .close], .ok (.info ⟨source.size, B.format handle,
          (B.shape handle).height, (B.shape handle).width⟩)⟩ := by
  rw [process_opened hread hstart hload]
  rfl

variable (hB : B.Unfailing) (U : B.Undisturbed)
include hB

theorem plans_of_goesBeyond {done todo first : List Step} {format : Option OutputFormat}
    (hread : Request.read settings descriptor = .ok (.transform (done ++ todo) format))
    (hfirst : ∀ before after, done = before ++ after → after ≠ [] → before <+: first)
    (hgoes : (process B settings .never source descriptor).GoesBeyond
      (U.callsThrough source.size first handle)) :
    U.Plans done handle := by
  refine Classical.byContradiction fun hplans => ?_
  obtain ⟨before, step, after, e, hsplit, hquiet⟩ := process_unplanned hB U hload hread hplans
  obtain ⟨call, hopen, hcalls⟩ := hgoes
  rw [hquiet] at hcalls
  -- A run that stops there has only its closing call left, and that is not on the handle.
  have hbefore := U.callsThrough_prefix source.size
    (hfirst _ _ hsplit (List.cons_ne_nil _ _)) handle
  rcases List.prefix_concat_iff.mp hcalls with hsame | hshorter
  · exact hopen (List.singleton_inj.mp (List.append_inj' hsame rfl).2)
  · have hlength := (hshorter.trans hbefore).length_le
    rw [List.length_append, List.length_singleton] at hlength
    omega

/-- Where every resize can be planned, the run that is never cancelled goes beyond all its steps. -/
theorem goesBeyond_of_plans {steps first : List Step} {format : Option OutputFormat}
    (hread : Request.read settings descriptor = .ok (.transform steps format))
    (hplans : U.Plans steps handle) (hfirst : first <+: steps) :
    (process B settings .never source descriptor).GoesBeyond
      (U.callsThrough source.size first handle) := by
  obtain ⟨encoded, hencode⟩ := hB.encode _ settings.quality _
  rw [process_completed hB U hload hread rfl hplans Interruption.not_raisedBy_never rfl rfl hencode]
  obtain ⟨others, hothers⟩ := U.callsThrough_prefix source.size hfirst handle
  have hopen := U.close_notMem_callsThrough source.size steps handle
  unfold Run.GoesBeyond
  rw [← hothers] at hopen ⊢
  cases others with
  | nil =>
    rw [List.append_nil]
    refine ⟨.encode _ _, ?_, [.close], List.append_assoc _ _ _⟩
    rintro ⟨⟩
  | cons call rest =>
    refine ⟨call, ?_, ?_⟩
    · rintro rfl
      exact hopen (List.mem_append_right _ List.mem_cons_self)
    · rw [List.append_cons _ call rest, List.append_assoc]
      exact List.prefix_append _ _

theorem process_heedsSteps {steps : List Step} {format : Option OutputFormat}
    (hread : Request.read settings descriptor = .ok (.transform steps format))
    (hstart : interruption.atStart = false) :
    (process B settings interruption source descriptor).HeedsSteps
      (process B settings .never source descriptor) U interruption source.size handle steps := by
  constructor
  · intro hraised
    have hlooks : ∀ first rest : List Step, [] = first ++ rest → rest ≠ [] →
        ¬ interruption.RaisedBy steps.length (U.callsThrough source.size first handle)
          (rest ++ steps).length := by
      intro first rest hsplit hrest
      exact absurd (List.append_eq_nil_iff.mp hsplit.symm).2 hrest
    have hnone : U.Plans [] handle := trivial
    exact process_stopped hB U hload hread hstart hnone hlooks hraised
  · rintro done step todo rfl hgoes hunraised hraised
    have hregroup : done ++ step :: todo = (done ++ [step]) ++ todo :=
      List.append_cons done step todo
    rw [hregroup] at hread hraised hunraised
    have hplans := plans_of_goesBeyond hload hB U hread
      (fun _ _ => prefix_of_concat_eq) hgoes
    refine process_stopped hB U hload hread hstart hplans ?_ hraised
    intro first rest hsplit hrest hearlier
    have hleft : todo.length + 1 ≤ (rest ++ todo).length := by
      have hsome := List.length_pos_iff.mpr hrest
      rw [List.length_append]
      omega
    have hprefix : first <+: done := prefix_of_concat_eq hsplit hrest
    exact hunraised (hearlier.mono (U.callsThrough_prefix _ hprefix handle) hleft)
  · intro hgoes hunraised
    have hread' : Request.read settings descriptor = .ok (.transform (steps ++ []) format) := by
      rw [List.append_nil]
      exact hread
    have hplans := plans_of_goesBeyond hload hB U hread'
      (fun _ after hsplit _ => ⟨after, hsplit.symm⟩) hgoes
    let last := U.afterAll (U.stepsEdits steps handle) handle
    let output := OutputFormat.resolve format (B.format last)
    obtain ⟨encoded, hencode⟩ := hB.encode output settings.quality last
    have hrun := process_completed hB U hload hread hstart hplans hunraised rfl rfl hencode
    have hquiet := process_completed hB U hload hread rfl hplans Interruption.not_raisedBy_never
      rfl rfl hencode
    rw [hrun, hquiet]
    exact ⟨rfl, encoded, rfl⟩

end

/-- A cancelled run. Whatever the backend does and whenever the request is cancelled, a call that
fails is what the answer is about. A request that is cancelled before it starts makes no call. On a
backend that never fails, a run that is cancelled later stops at the next look, and goes on like a
run that is never cancelled where no look comes any more. -/
theorem process_heeds [Scale σ] (U : B.Undisturbed) (settings : Settings)
    (interruption : Interruption σ) (source : ByteArray) (descriptor : String) {request : Request}
    (hread : Request.read settings descriptor = .ok request) :
    let run := process B settings interruption source descriptor
    let quiet := process B settings .never source descriptor
    run.Blames source ∧ (interruption.atStart = true → run = ⟨[], .error .cancelled⟩) ∧
      (interruption.atStart = false → B.Unfailing → ∀ handle, B.load source = .ok handle →
        run.Heeds quiet U interruption source.size handle request) := by
  intro run quiet
  refine ⟨(process_follows U settings interruption source descriptor).blames, ?_, ?_⟩
  · intro hstart
    simp only [run, process, hread, hstart, if_true]
  · intro hstart hB handle hload
    cases request with
    | info =>
      have hrun := process_report hload hread hstart
      have hquiet : quiet = _ := process_report hload hread rfl
      exact ⟨hrun.trans hquiet.symm, _, congrArg Run.result hrun⟩
    | transform steps format => exact process_heedsSteps hload hB U hread hstart

/-- Cancelled during the first of the two calls that pad an image, a run makes the second, too. -/
theorem process_heeds_of_pad :
    let B : Backend Rat := rehearsal ⟨⟨4, 2, false⟩, .png⟩ fun _ => none
    let interruption : Interruption Rat := { during := fun calls => calls.length == 2 }
    let run := process B {} interruption ⟨#[]⟩ "resize,m_pad,w_2,h_2"
    run.calls.map Call.name = ["load", "resize_axes", "embed", "close"] ∧
      run.result = .error .cancelled := by
  intro B interruption run
  let o : ResizeOptions := { w := 2, h := 2, mode := .pad }
  let handle : B.Handle := ({ sketch := ⟨⟨4, 2, false⟩, .png⟩ } : Rehearsed)
  let U := B.undisturbed
  have hread : Request.read {} "resize,m_pad,w_2,h_2" = .ok (.transform [.resize o] none) := by rfl
  have hB : B.Unfailing := rehearsal_unfailing _
  have hload : B.load ⟨#[]⟩ = .ok handle := rfl
  have hpixelled : (B.shape handle).Pixelled := ⟨by decide, by decide⟩
  have hplans : U.Plans [.resize o] handle :=
    ⟨⟨_, ResizeOptions.plan_of_edges rfl hpixelled⟩, trivial⟩
  have hgoes := goesBeyond_of_plans hload hB U hread hplans List.nil_prefix
  obtain ⟨-, -, hheeds⟩ := process_heeds U {} interruption ⟨#[]⟩ "resize,m_pad,w_2,h_2" hread
  have hsteps := hheeds rfl hB handle hload
  have hunraised : ¬ interruption.RaisedBy 1 (U.callsThrough 0 [] handle) 1 := by
    rintro (⟨calls, _, hprefix, hduring⟩ | ⟨_, _, _, hbetween⟩)
    · have hlength := hprefix.length_le
      rw [beq_iff_eq.mp hduring] at hlength
      exact absurd hlength (by decide)
    · cases hbetween
  have hraised : interruption.RaisedBy 1 (U.callsThrough 0 [.resize o] handle) 0 :=
    .inl ⟨(U.callsThrough 0 [.resize o] handle).take 2, List.cons_ne_nil _ _,
      List.take_prefix 2 _, rfl⟩
  have hrun : run = _ := hsteps.in_step [] (.resize o) [] rfl hgoes hunraised hraised
  rw [hrun]
  exact ⟨rfl, rfl⟩

end ImagePipeline
