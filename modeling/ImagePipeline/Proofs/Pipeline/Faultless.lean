import ImagePipeline.Proofs.Geometry.UsablePlan
import ImagePipeline.Proofs.Pipeline.Lifecycle
import ImagePipeline.Proofs.Pipeline.Reading
import ImagePipeline.Proofs.Pipeline.Session

/-!
# No descriptor provokes a fault

Whatever a descriptor asks for, the changes that a run makes of a photo with pixels have arguments
that mean something, and the photo has pixels after each of them. So a change can only fail because
it is too large, which is the caller's doing; a fault of the backend is left to the encoder
(`process_faultless`). What the photo was decoded from, and how, does not matter.
-/

namespace ImagePipeline

variable {σ : Type} {B : Backend σ}

/-! ### Changes in a row -/

/-- Every change in a row has a property on the handle that it is made of, as long as none fails. -/
def Backend.Meets (B : Backend σ) (P : Edit σ → B.Handle → Prop) : List (Edit σ) → B.Handle → Prop
  | [], _ => True
  | change :: rest, handle =>
    P change handle ∧ ∀ changed, B.edit change handle = .ok changed → B.Meets P rest changed

namespace Backend

variable {P : Edit σ → B.Handle → Prop}

theorem replay_edit_ok {change : Edit σ} {rest : List (Edit σ)} {handle changed : B.Handle}
    (h : B.edit change handle = .ok changed) :
    B.replay ((change :: rest).map .edit) handle = B.replay (rest.map .edit) changed := by
  simp only [List.map_cons, replay, h]

theorem meets_append {first second : List (Edit σ)} {handle : B.Handle}
    (hfirst : B.Meets P first handle)
    (hsecond : ∀ last, B.replay (first.map .edit) handle = .ok last → B.Meets P second last) :
    B.Meets P (first ++ second) handle := by
  induction first generalizing handle with
  | nil => exact hsecond handle rfl
  | cons change rest ih =>
    refine ⟨hfirst.1, ?_⟩
    intro changed hchanged
    refine ih (hfirst.2 changed hchanged) ?_
    intro last hlast
    refine hsecond last ?_
    rw [replay_edit_ok hchanged, hlast]

theorem Meets.at_split {first rest : List (Edit σ)} {change : Edit σ} {handle middle : B.Handle}
    (h : B.Meets P (first ++ change :: rest) handle)
    (hreplay : B.replay (first.map .edit) handle = .ok middle) : P change middle := by
  induction first generalizing handle with
  | nil =>
    cases hreplay
    exact h.1
  | cons before first ih =>
    cases hbefore : B.edit before handle with
    | error e =>
      simp only [List.map_cons, replay, hbefore] at hreplay
      cases hreplay
    | ok changed =>
      rw [replay_edit_ok hbefore] at hreplay
      exact ih (h.2 changed hbefore) hreplay

end Backend

/-! ### Photos -/

namespace Photo

variable [Scale σ]

/-- The photo has pixels and the arguments of the change mean something for it. -/
def Guarded (change : Edit σ) (photo : Photo) : Prop :=
  photo.picture.shape.Pixelled ∧ change.Admissible photo.picture.shape

variable {limits : Limits} {change : Edit σ} {photo changed : Photo}

theorem edit_pixelled [LawfulScale σ] (hpixelled : photo.picture.shape.Pixelled)
    (h : photo.edit limits change = .ok changed) : changed.picture.shape.Pixelled := by
  have hrespects := photo.attempt_respects limits change hpixelled
  rw [attempt_of_edit_ok h] at hrespects
  exact hrespects.pixelled

end Photo

/-! ### Changes of a request -/

section

variable [Scale σ] [LawfulScale σ] (limits : Limits)
  (load : ByteArray → Except BackendError Photo)

theorem replay_pixelled {changes : List (Edit σ)} {photo last : Photo}
    (hpixelled : photo.picture.shape.Pixelled)
    (h : (pixels limits load).replay (changes.map .edit) photo = .ok last) :
    last.picture.shape.Pixelled := by
  induction changes generalizing photo with
  | nil =>
    cases h
    exact hpixelled
  | cons change rest ih =>
    cases hchange : (pixels limits load).edit change photo with
    | error e =>
      simp only [List.map_cons, Backend.replay, hchange] at h
      cases h
    | ok changed =>
      rw [Backend.replay_edit_ok hchange] at h
      exact ih (Photo.edit_pixelled hpixelled hchange) h

theorem Task.changeOf_admissible {step : GeometryStep} (h : step.Usable) (shape : Shape) :
    (changeOf shape step : Edit σ).Admissible shape := by
  cases step with
  | resize scale kernel => exact h.isPositive
  | resizeAxes hscale vscale kernel => exact ⟨h.1.isPositive, h.2.isPositive⟩
  | thumbnail width height interest sizing => exact h
  | embedCentered width height background => exact h

variable (U : (pixels (σ := σ) limits load).Undisturbed)

theorem planEdits_meets {plan : List GeometryStep} (husable : ∀ step ∈ plan, step.Usable)
    {photo : Photo} (hpixelled : photo.picture.shape.Pixelled) :
    (pixels limits load).Meets Photo.Guarded (U.planEdits plan photo) photo := by
  induction plan generalizing photo with
  | nil => trivial
  | cons step rest ih =>
    obtain ⟨hstep, hrest⟩ := List.forall_mem_cons.mp husable
    refine ⟨⟨hpixelled, Task.changeOf_admissible hstep _⟩, ?_⟩
    intro changed hchanged
    rw [U.after_eq _ _ _ hchanged]
    exact ih hrest (Photo.edit_pixelled hpixelled hchanged)

theorem stepEdits_meets {step : Step} (hsane : step.Sane) {photo : Photo}
    (hpixelled : photo.picture.shape.Pixelled) :
    (pixels limits load).Meets Photo.Guarded (U.stepEdits step photo) photo := by
  cases step with
  | resize options =>
    obtain ⟨plan, hplan, husable⟩ := ResizeOptions.plan_usable hpixelled hsane
    have hedits : U.stepEdits (.resize options) photo = U.planEdits plan photo :=
      U.stepEdits_resize hplan
    rw [hedits]
    exact planEdits_meets limits load U husable hpixelled
  | watermark params =>
    change (pixels limits load).Meets _ (if photo.picture.hasAlpha then [.watermark params]
      else [.addAlpha, .watermark params]) photo
    cases halpha : photo.picture.hasAlpha with
    | true => exact ⟨⟨hpixelled, halpha⟩, fun _ _ => trivial⟩
    | false =>
      refine ⟨⟨hpixelled, trivial⟩, ?_⟩
      intro changed hchanged
      have hedit : photo.edit limits (.addAlpha : Edit σ) = .ok changed := hchanged
      have halpha' : changed.picture.shape.hasAlpha = true := by
        rw [Photo.edit_reshape hedit]
        rfl
      exact ⟨⟨Photo.edit_pixelled hpixelled hedit, halpha'⟩, fun _ _ => trivial⟩
  | blur options => exact ⟨⟨hpixelled, hsane⟩, fun _ _ => trivial⟩

theorem stepsEdits_meets {steps : List Step} (hsane : ∀ step ∈ steps, step.Sane) {photo : Photo}
    (hpixelled : photo.picture.shape.Pixelled) :
    (pixels limits load).Meets Photo.Guarded (U.stepsEdits steps photo) photo := by
  induction steps generalizing photo with
  | nil => trivial
  | cons step rest ih =>
    obtain ⟨hstep, hrest⟩ := List.forall_mem_cons.mp hsane
    refine Backend.meets_append (stepEdits_meets limits load U hstep hpixelled) ?_
    intro last hlast
    rw [U.afterAll_of_replay hlast]
    exact ih hrest (replay_pixelled limits load hpixelled hlast)

omit [Scale σ] [LawfulScale σ] in
theorem edits_split {changes : List (Edit σ)} {last : Call σ}
    (hlast : ∀ change, last ≠ .edit change) {first rest : List (Call σ)} {change : Edit σ}
    (h : changes.map .edit ++ [last] = first ++ .edit change :: rest) :
    ∃ before after, changes = before ++ change :: after ∧ first = before.map .edit := by
  induction changes generalizing first with
  | nil =>
    cases first with
    | nil =>
      injection h with hhead
      exact absurd hhead (hlast change)
    | cons call first =>
      injection h with _ htail
      cases first <;> cases htail
  | cons head tail ih =>
    cases first with
    | nil =>
      injection h with hhead
      injection hhead with hhead
      exact ⟨[], tail, congrArg (· :: tail) hhead, rfl⟩
    | cons call first =>
      injection h with hhead htail
      obtain ⟨before, after, hchanges, hfirst⟩ := ih htail
      refine ⟨head :: before, after, ?_, ?_⟩
      · rw [hchanges]
        rfl
      · rw [← hhead, hfirst]
        rfl

theorem script_guarded {request : Request} {settings : Settings} {descriptor : String}
    (hread : Request.read settings descriptor = .ok request) {photo middle : Photo}
    (hpixelled : photo.picture.shape.Pixelled) {first rest : List (Call σ)} {change : Edit σ}
    (hscript : request.script U settings photo = first ++ .edit change :: rest)
    (hreplay : (pixels limits load).replay first photo = .ok middle) :
    Photo.Guarded change middle := by
  cases request with
  | info => cases first <;> cases hscript
  | transform steps format =>
    obtain ⟨before, after, hchanges, rfl⟩ := edits_split (fun _ h => by cases h) hscript
    have hmeets := stepsEdits_meets limits load U (Request.read_sane hread) hpixelled
    rw [hchanges] at hmeets
    exact hmeets.at_split hreplay

omit [LawfulScale σ] in
theorem script_call {request : Request} {settings : Settings} {photo : Photo} {call : Call σ}
    (h : call ∈ request.script U settings photo) :
    (∃ change, call = .edit change) ∨ ∃ format quality, call = .encode format quality := by
  cases request with
  | info => cases h
  | transform steps format =>
    rcases List.mem_append.mp h with hedit | hencode
    · obtain ⟨change, -, rfl⟩ := List.mem_map.mp hedit
      exact .inl ⟨change, rfl⟩
    · exact .inr ⟨_, _, List.mem_singleton.mp hencode⟩

section

variable {U} {request : Request} {settings : Settings} {descriptor : String} {photo : Photo}
  {made : List (Call σ)} {γ : Type} {result : Except ProcessError γ}
  (hread : Request.read settings descriptor = .ok request)
  (hpixelled : photo.picture.shape.Pixelled)
  (hfollows : Request.Follows (B := pixels limits load) (request.script U settings photo) photo made
    result)
include hread hpixelled hfollows

theorem edit_faultless {first rest : List (Call σ)} {change : Edit σ}
    (hmade : made = first ++ .edit change :: rest) :
    ∃ middle : Photo, (pixels limits load).replay first photo = .ok middle ∧
      Photo.Guarded change middle ∧
      (∀ changed : Photo, middle.edit limits change = .ok changed →
        changed.picture.shape.Pixelled) ∧
      ∀ e, middle.edit limits change = .error e →
        ∃ d, e = .tooLarge d ∧ result = .error (.param ("image too large: " ++ d)) := by
  subst hmade
  obtain ⟨last, hlast⟩ := hfollows.only_last_fails
  rw [List.dropLast_append_of_ne_nil (List.cons_ne_nil _ _)] at hlast
  obtain ⟨middle, hmiddle⟩ := Backend.replay_of_append hlast
  obtain ⟨others, hothers⟩ := hfollows.made_prefix
  rw [List.append_assoc] at hothers
  have hguarded := script_guarded limits load U hread hpixelled hothers.symm hmiddle
  refine ⟨middle, hmiddle, hguarded, fun _ => Photo.edit_pixelled hguarded.1, ?_⟩
  intro e herror
  obtain ⟨d, rfl⟩ := Photo.edit_tooLarge hguarded.2 herror
  refine ⟨d, rfl, hfollows.failure (.tooLarge d) ?_⟩
  have hrefused : (pixels limits load).edit change middle = .error (.tooLarge d) := herror
  rw [Backend.replay_append_ok hmiddle, Backend.replay_edit_error hrefused]

theorem fault_of_encode {fault : BackendError} (hfault : result = .error (.backend fault)) :
    ∃ (first : List (Call σ)) (format : OutputFormat) (quality : Quality) (middle : Photo),
      made = first ++ [.encode format quality] ∧
        (pixels limits load).replay first photo = .ok middle ∧
        middle.encode format = .error fault := by
  cases hreplay : (pixels limits load).replay made photo with
  | ok last => exact absurd hfault (hfollows.blameless last hreplay fault)
  | error e =>
    have hblamed := hfollows.failure e hreplay
    rcases List.eq_nil_or_concat made with rfl | ⟨first, call, rfl⟩
    · cases hreplay
    · rw [List.concat_eq_append] at *
      obtain ⟨middle, hmiddle⟩ := hfollows.only_last_fails
      rw [List.dropLast_concat] at hmiddle
      have hcall := hfollows.made_prefix.subset
        (List.mem_append_right first (List.mem_singleton_self call))
      rcases script_call limits load U hcall with ⟨change, rfl⟩ | ⟨format, quality, rfl⟩
      · obtain ⟨before, hbefore, -, -, hlarge⟩ :=
          edit_faultless limits load hread hpixelled hfollows rfl
        cases hmiddle.symm.trans hbefore
        rw [Backend.replay_append_ok hmiddle] at hreplay
        cases hedit : (pixels limits load).edit change middle with
        | ok changed =>
          simp only [Backend.replay, hedit] at hreplay
          cases hreplay
        | error e' =>
          obtain ⟨d, -, hparam⟩ := hlarge e' hedit
          rw [hparam] at hfault
          cases hfault
      · refine ⟨first, format, quality, middle, rfl, hmiddle, ?_⟩
        rw [Backend.replay_append_ok hmiddle] at hreplay
        have hencode : middle.encode format = .error e := Backend.encode_of_replay hreplay
        rw [hencode]
        rw [hblamed] at hfault
        cases e with
        | processingFailed d =>
          cases hfault
          rfl
        | decode d => cases hfault
        | tooLarge d => cases hfault

end

/-- A run on any photo with pixels, whatever decoder it comes from: every change that the run makes
of a photo is one that means something there and leaves pixels, or else is too large and answered
so; only the encoder, after the last change, can be at fault. -/
theorem process_faultless (settings : Settings) (interruption : Interruption σ)
    (source : ByteArray) (descriptor : String) {photo : Photo}
    (hloaded : load source = .ok photo) (hpixelled : photo.picture.shape.Pixelled) :
    let B : Backend σ := pixels limits load
    let run := process B settings interruption source descriptor
    (∀ first change rest, run.calls = first ++ .edit change :: rest →
      ∃ middle : Photo, B.replay first photo = .ok middle ∧ Photo.Guarded change middle ∧
        (∀ changed : Photo, B.edit change middle = .ok changed →
          changed.picture.shape.Pixelled) ∧
        ∀ e, B.edit change middle = .error e →
          ∃ d, e = .tooLarge d ∧ run.result = .error (.param ("image too large: " ++ d))) ∧
      ∀ fault, run.result = .error (.backend fault) →
        ∃ (first : List (Call σ)) (format : OutputFormat) (quality : Quality) (middle : Photo),
          run.calls = first ++ [.encode format quality, .close] ∧
            B.replay first photo = .ok middle ∧ B.encode format quality middle = .error fault := by
  have hlife := process_follows (pixels (σ := σ) limits load).undisturbed settings interruption
    source descriptor
  dsimp only
  generalize process (pixels limits load) settings interruption source descriptor = run at hlife ⊢
  cases hlife with
  | unreadable refused =>
    constructor
    · intro first change rest h
      cases first <;> cases h
    · intro fault h
      exact absurd (Except.error.inj h) (Request.read_error refused fault)
  | cancelled =>
    constructor
    · intro first change rest h
      cases first <;> cases h
    · intro fault h
      cases h
  | undecodable _ _ refused => cases hloaded.symm.trans refused
  | @opened request handle made result hread _ loaded _ hfollows =>
    cases hloaded.symm.trans loaded
    constructor
    · intro first change rest h
      cases first with
      | nil => cases h
      | cons call first =>
        injection h with hload htail
        obtain ⟨others, hmade⟩ := mem_of_concat (fun h => by cases h) htail
        obtain ⟨middle, hmiddle, hfaultless⟩ :=
          edit_faultless limits load hread hpixelled hfollows hmade
        rw [← hload]
        exact ⟨middle, hmiddle, hfaultless⟩
    · intro fault hfault
      obtain ⟨first, format, quality, middle, rfl, hmiddle, hencode⟩ :=
        fault_of_encode limits load hread hpixelled hfollows hfault
      refine ⟨.load source.size :: first, format, quality, middle, ?_, hmiddle, hencode⟩
      simp only [List.cons_append, List.append_assoc]
      rfl

end

def twoGreys : ByteArray :=
  ⟨#[0x50, 0x35, 0x20, 0x32, 0x20, 0x31, 0x20, 0x32, 0x35, 0x35, 0x0a, 0x00, 0xff]⟩

/-- Two grey pixels are made one, in four calls. -/
theorem process_faultless_of_greys :
    let run := process (pixels {}) {} (.never : Interruption Rat) twoGreys "resize,w_1"
    run.calls.map Call.name = ["load", "resize", "encode", "close"] ∧
      ∃ photo, Photo.decode {} twoGreys = .ok photo ∧ photo.picture.shape.Pixelled ∧
        ∀ first change rest, run.calls = first ++ .edit change :: rest →
          ∃ middle : Photo, (pixels {}).replay first photo = .ok middle ∧
            Photo.Guarded change middle := by
  have hshape : (Photo.decode {} twoGreys).toOption.map (fun photo => photo.picture.shape)
      = some ⟨2, 1, false⟩ := by decide +kernel
  refine ⟨by decide +kernel, ?_⟩
  cases hloaded : Photo.decode {} twoGreys with
  | error e =>
    rw [hloaded] at hshape
    cases hshape
  | ok photo =>
    rw [hloaded] at hshape
    have hsides : photo.picture.shape = ⟨2, 1, false⟩ := Option.some.inj hshape
    have hpixelled : photo.picture.shape.Pixelled := by
      rw [hsides]
      exact ⟨by decide, by decide⟩
    refine ⟨photo, rfl, hpixelled, ?_⟩
    intro first change rest hcalls
    obtain ⟨hchanges, -⟩ := process_faultless {} (Photo.decode {}) {}
      (.never : Interruption Rat) twoGreys "resize,w_1" hloaded hpixelled
    obtain ⟨middle, hmiddle, hguarded, -⟩ := hchanges first change rest hcalls
    exact ⟨middle, hmiddle, hguarded⟩

end ImagePipeline
