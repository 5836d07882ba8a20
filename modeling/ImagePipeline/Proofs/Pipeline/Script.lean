import ImagePipeline.Pipeline.Process

/-!
# The script of a request

What a request asks a backend to do is known before anything goes wrong: the changes of its steps
in their order, then one encoding (`Request.script`). The changes of a step depend on the shape
that the steps before have left, so the script is read along the handles that the changes make when
none of them fails (`Backend.Undisturbed`). What becomes of calls that are really made is told by
`Backend.replay`.
-/

namespace ImagePipeline

variable {σ : Type} {B : Backend σ}

/-! ### Making calls -/

/-- The handle that calls leave when they are made one after the other, or the first failure among
them. -/
def Backend.replay (B : Backend σ) : List (Call σ) → B.Handle → Except BackendError B.Handle
  | [], handle => .ok handle
  | .load _ :: rest, handle => B.replay rest handle
  | .edit change :: rest, handle =>
    match B.edit change handle with
    | .ok changed => B.replay rest changed
    | .error e => .error e
  | .encode format quality :: rest, handle =>
    match B.encode format quality handle with
    | .ok _ => B.replay rest handle
    | .error e => .error e
  | .close :: rest, handle => B.replay rest (B.close handle)

theorem Backend.replay_edit_error {change : Edit σ} {handle : B.Handle} {e : BackendError}
    (h : B.edit change handle = .error e) (rest : List (Call σ)) :
    B.replay (.edit change :: rest) handle = .error e := by
  simp only [replay, h]

theorem Backend.encode_of_replay {format : OutputFormat} {quality : Quality} {handle : B.Handle}
    {e : BackendError} (h : B.replay [.encode format quality] handle = .error e) :
    B.encode format quality handle = .error e := by
  simp only [replay] at h
  cases hencode : B.encode format quality handle with
  | ok encoded =>
    rw [hencode] at h
    cases h
  | error e' =>
    rw [hencode] at h
    cases h
    rfl

theorem Backend.replay_append (first second : List (Call σ)) (handle : B.Handle) :
    B.replay (first ++ second) handle = (B.replay first handle).bind (B.replay second) := by
  induction first generalizing handle with
  | nil => rfl
  | cons call rest ih =>
    cases call with
    | load bytes => exact ih handle
    | close => exact ih (B.close handle)
    | edit change =>
      simp only [List.cons_append, Backend.replay]
      cases hc : B.edit change handle with
      | error e => rfl
      | ok changed => exact ih changed
    | encode format quality =>
      simp only [List.cons_append, Backend.replay]
      cases hc : B.encode format quality handle with
      | error e => rfl
      | ok encoded => exact ih handle

theorem Backend.replay_append_ok {first second : List (Call σ)} {handle middle : B.Handle}
    (h : B.replay first handle = .ok middle) :
    B.replay (first ++ second) handle = B.replay second middle := by
  rw [Backend.replay_append, h]
  rfl

theorem Backend.replay_of_append {first second : List (Call σ)} {handle last : B.Handle}
    (h : B.replay (first ++ second) handle = .ok last) :
    ∃ middle, B.replay first handle = .ok middle := by
  rw [Backend.replay_append] at h
  cases hfirst : B.replay first handle with
  | ok middle => exact ⟨middle, rfl⟩
  | error e =>
    rw [hfirst] at h
    cases h

theorem mem_of_concat {made first rest : List (Call σ)} {call last : Call σ} (hlast : last ≠ call)
    (h : made ++ [last] = first ++ call :: rest) : ∃ others, made = first ++ call :: others := by
  rcases List.eq_nil_or_concat rest with rfl | ⟨others, final, rfl⟩
  · exact absurd (List.singleton_inj.mp (List.append_inj' h rfl).2) hlast
  · rw [List.concat_eq_append, ← List.cons_append, ← List.append_assoc] at h
    exact ⟨others, (List.append_inj' h rfl).1⟩

theorem prefix_of_concat_eq {α : Type} {init before rest : List α} {last : α}
    (h : init ++ [last] = before ++ rest) (hrest : rest ≠ []) : before <+: init := by
  rcases List.prefix_concat_iff.mp ⟨rest, h.symm⟩ with rfl | hinit
  · exact absurd (List.self_eq_append_right.mp h) hrest
  · exact hinit

/-! ### Handles when nothing fails -/

/-- What every change makes of every handle when nothing fails: the same as the backend makes of it
wherever the backend succeeds, and anything elsewhere. -/
structure Backend.Undisturbed (B : Backend σ) where
  after : Edit σ → B.Handle → B.Handle
  after_eq : ∀ change handle changed,
    B.edit change handle = .ok changed → after change handle = changed

/-- The reading in which a change that would fail leaves the handle alone. -/
def Backend.undisturbed (B : Backend σ) : B.Undisturbed where
  after change handle :=
    match B.edit change handle with
    | .ok changed => changed
    | .error _ => handle
  after_eq := by
    intro change handle changed h
    simp only [h]

namespace Backend.Undisturbed

def afterAll (U : B.Undisturbed) (changes : List (Edit σ)) (handle : B.Handle) : B.Handle :=
  changes.foldl (fun handle change => U.after change handle) handle

theorem afterAll_of_replay (U : B.Undisturbed) {changes : List (Edit σ)} {handle last : B.Handle}
    (h : B.replay (changes.map .edit) handle = .ok last) : U.afterAll changes handle = last := by
  induction changes generalizing handle with
  | nil => exact Except.ok.inj h
  | cons change rest ih =>
    simp only [List.map_cons, Backend.replay] at h
    cases hc : B.edit change handle with
    | error e =>
      rw [hc] at h
      cases h
    | ok changed =>
      rw [hc] at h
      have hafter := U.after_eq change handle changed hc
      simp only [afterAll, List.foldl_cons]
      rw [hafter]
      exact ih h

theorem afterAll_append (U : B.Undisturbed) (first second : List (Edit σ)) (handle : B.Handle) :
    U.afterAll (first ++ second) handle = U.afterAll second (U.afterAll first handle) :=
  List.foldl_append

variable [Scale σ]

/-- The changes that geometry steps make, each of the handle the one before has left. -/
def planEdits (U : B.Undisturbed) : List GeometryStep → B.Handle → List (Edit σ)
  | [], _ => []
  | step :: rest, handle =>
    let change := Task.changeOf (B.shape handle) step
    change :: U.planEdits rest (U.after change handle)

/-- The changes that a step makes of a handle; a resize that cannot be planned makes none. -/
def stepEdits (U : B.Undisturbed) (step : Step) (handle : B.Handle) : List (Edit σ) :=
  match step with
  | .resize options =>
    match options.plan (B.shape handle) with
    | .ok plan => U.planEdits plan handle
    | .error _ => []
  | .watermark params =>
    if (B.shape handle).hasAlpha then [.watermark params] else [.addAlpha, .watermark params]
  | .blur options => [.blur options.sigma options.minAmplitude]

theorem stepEdits_resize (U : B.Undisturbed) {options : ResizeOptions} {handle : B.Handle}
    {plan : List GeometryStep} (h : options.plan (B.shape handle) = .ok plan) :
    U.stepEdits (.resize options) handle = U.planEdits plan handle := by
  simp only [stepEdits, h]

def stepsEdits (U : B.Undisturbed) : List Step → B.Handle → List (Edit σ)
  | [], _ => []
  | step :: rest, handle =>
    let changes := U.stepEdits step handle
    changes ++ U.stepsEdits rest (U.afterAll changes handle)

theorem stepsEdits_append (U : B.Undisturbed) (first second : List Step) (handle : B.Handle) :
    U.stepsEdits (first ++ second) handle
      = U.stepsEdits first handle
        ++ U.stepsEdits second (U.afterAll (U.stepsEdits first handle) handle) := by
  induction first generalizing handle with
  | nil => rfl
  | cons step rest ih =>
    simp only [List.cons_append, stepsEdits, afterAll_append, ih, List.append_assoc]

end Backend.Undisturbed

/-- The calls that a request makes of a handle when nothing stops it: the changes of its steps in
their order and then one encoding; a report needs none. -/
def Request.script [Scale σ] (U : B.Undisturbed) (settings : Settings) (handle : B.Handle) :
    Request → List (Call σ)
  | .info => []
  | .transform steps format =>
    let changes := U.stepsEdits steps handle
    let last := U.afterAll changes handle
    changes.map .edit ++ [.encode (OutputFormat.resolve format (B.format last)) settings.quality]

theorem Request.close_notMem_script [Scale σ] (U : B.Undisturbed) (settings : Settings)
    (handle : B.Handle) (request : Request) :
    Call.close ∉ request.script U settings handle := by
  cases request with
  | info => simp [script]
  | transform steps format => simp [script]

end ImagePipeline
