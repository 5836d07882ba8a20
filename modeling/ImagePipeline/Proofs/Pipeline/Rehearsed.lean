import ImagePipeline.Proofs.Pipeline.Faultless
import ImagePipeline.Proofs.Pipeline.Simulation

/-!
# Rehearsed runs

A rehearsal of a run on pixels makes the same calls with the same arguments, notes every one of them
down, and sketches every photo on the way (`process_rehearsed`). It can do so because no change is
planned whose sides are not known beforehand, because a watermark only comes where there is alpha,
and because the container of the source is known; and it can do so until the photo is closed, which
drops its pixels, while the sketch keeps its sides under a mark (`close_not_rehearsed`).
-/

namespace ImagePipeline

variable {σ : Type} [Scale σ]

/-! ### Sketches -/

def Photo.sketch (photo : Photo) : Sketch := ⟨photo.picture.shape, photo.format⟩

theorem Sketch.format_after (s : Sketch) (change : Edit σ) :
    (s.after change).format = s.format := by
  cases change <;> rfl

theorem Sketch.claimed_eq {s : Sketch} (hknown : s.format ≠ .unknown) (format : OutputFormat) :
    s.claimed format = format.container s.format := by
  cases format with
  | native =>
    simp only [claimed, OutputFormat.container]
  | jpeg | png | webp | tiff | gif => rfl

namespace Photo

variable {limits : Limits} {change : Edit σ} {photo changed : Photo}

theorem sketch_edit [CoveringScale σ] [FiniteScale σ] (hexact : change.Exact)
    (hpixelled : photo.picture.shape.Pixelled) (h : photo.edit limits change = .ok changed) :
    changed.sketch = photo.sketch.after change := by
  have hshape : changed.picture.shape = (photo.sketch.after change).shape :=
    (edit_reshape h).trans (Edit.reshape_eq_after hexact hpixelled photo.format)
  have hkept : (photo.sketch.after change).format = photo.format := Sketch.format_after _ change
  rw [sketch, hshape, (made_of_edit h).format_eq, ← hkept]

/-- A change that was made of a photo is not turned away by its sketch. -/
theorem takes_of_edit (h : photo.edit limits change = .ok changed) :
    photo.sketch.takes change = true := by
  have hadmissible := (made_of_edit h).admissible
  cases change with
  | watermark params => exact hadmissible
  | resize | resizeAxes | thumbnail | embed | addAlpha | blur => rfl

/-- A photo with pixels, of a source of known type, and its sketch, not closed. -/
structure Sketched (photo : Photo) (rehearsed : Rehearsed) : Prop where
  pixelled : photo.picture.shape.Pixelled
  known : photo.format ≠ .unknown
  rehearsed_eq : rehearsed = { sketch := photo.sketch }

end Photo

/-! ### Rehearsals that refuse nothing -/

section

variable {source : Sketch} {change : Edit σ} {rehearsed : Rehearsed}

theorem rehearsal_edit_of_takes (h : rehearsed.sketch.takes change = true) :
    (rehearsal source fun _ => none).edit change rehearsed
      = .ok { rehearsed with sketch := rehearsed.sketch.after change } := by
  simp only [rehearsal, h]
  rfl

theorem takes_of_rehearsal_edit {changed : Rehearsed}
    (h : (rehearsal source fun _ => none).edit change rehearsed = .ok changed) :
    rehearsed.sketch.takes change = true := by
  cases htakes : rehearsed.sketch.takes change with
  | true => rfl
  | false =>
    simp only [rehearsal, htakes] at h
    cases h

/-- Calls that all succeed are all noted down. -/
theorem Sketch.noted_of_replay {calls : List (Call σ)} {last : Rehearsed}
    (h : (rehearsal source fun _ => none).replay calls rehearsed = .ok last) :
    noted (fun _ => none) calls rehearsed.sketch = calls := by
  induction calls generalizing rehearsed with
  | nil => rfl
  | cons call rest ih =>
    cases call with
    | load bytes => exact congrArg (.load bytes :: ·) (ih h)
    | close => exact congrArg (.close :: ·) (ih h)
    | encode format quality => exact congrArg (.encode format quality :: ·) (ih h)
    | edit change =>
      cases hedit : (rehearsal source fun _ => none).edit change rehearsed with
      | error e =>
        rw [Backend.replay_edit_error hedit] at h
        cases h
      | ok changed =>
        have htakes := takes_of_rehearsal_edit hedit
        cases (rehearsal_edit_of_takes htakes).symm.trans hedit
        simp only [Backend.replay, hedit] at h
        simp only [noted, htakes]
        exact congrArg (.edit change :: ·) (ih h)

end

variable [LawfulScale σ] [CoveringScale σ] [FiniteScale σ]

theorem rehearsal_simulates (limits : Limits) (load : ByteArray → Except BackendError Photo)
    (source : Sketch) :
    (rehearsal source fun _ => none).Simulates (pixels limits load : Backend σ)
      Photo.Sketched := by
  constructor
  · intro photo rehearsed hsketched
    rw [hsketched.rehearsed_eq]
    rfl
  · intro photo rehearsed hsketched
    rw [hsketched.rehearsed_eq]
    rfl
  · intro change photo changed rehearsed hsketched hexact hedit
    have hmade : photo.edit limits change = .ok changed := hedit
    have hsketch := Photo.sketch_edit hexact hsketched.pixelled hmade
    have hknown : changed.format ≠ .unknown := by
      rw [(Photo.made_of_edit hmade).format_eq]
      exact hsketched.known
    obtain rfl := hsketched.rehearsed_eq
    refine ⟨{ sketch := photo.sketch.after change }, ?_, ?_⟩
    · exact rehearsal_edit_of_takes (Photo.takes_of_edit hmade)
    · refine ⟨Photo.edit_pixelled hsketched.pixelled hmade, hknown, ?_⟩
      rw [hsketch]
  · intro format quality photo rehearsed encoded hsketched hencode
    have hphoto : photo.encode format = .ok encoded := hencode
    have hclaimed : photo.sketch.claimed format = format.container photo.format :=
      Sketch.claimed_eq hsketched.known format
    unfold Photo.encode at hphoto
    dsimp only at hphoto
    split at hphoto
    · cases hphoto
    · cases hphoto
      rw [hsketched.rehearsed_eq]
      exact ⟨_, rfl, hclaimed, rfl, rfl⟩

/-- Changes that are not planned need not be rehearsed rightly: a factor beyond all numbers makes
the shortest side of a picture and the longest one of a sketch. -/
example : Scale.side (1 / 0 : Float) 4 = 1 ∧ Scale.saturating (1 / 0 : Float) 4 = 4294967295 := by
  decide +kernel

/-! ### Runs -/

/-- A run on pixels that succeeds, whatever decoder the photo comes from, and its rehearsal under
the same interruption, which starts from the sketch of the photo: the calls are the same, the
rehearsal notes all of them down, the answers are alike, and after every call but the closing one
the sketch is that of the photo. The closing call drops the pixels of the last photo; the sketch
stays as it is and is marked as closed. -/
theorem process_rehearsed (limits : Limits) (load : ByteArray → Except BackendError Photo)
    (settings : Settings) (interruption : Interruption σ) (source : ByteArray)
    (descriptor : String) {photo : Photo} {output : Output Picture}
    (hloaded : load source = .ok photo) (hpixelled : photo.picture.shape.Pixelled)
    (hknown : photo.format ≠ .unknown)
    (hok : (process (pixels limits load) settings interruption source descriptor).result
      = .ok output) :
    let B : Backend σ := pixels limits load
    let M : Backend σ := rehearsal photo.sketch fun _ => none
    let run := process B settings interruption source descriptor
    let rehearsed := process M settings interruption source descriptor
    let fresh (photo : Photo) : Rehearsed := { sketch := photo.sketch }
    (rehearsed.calls = run.calls ∧
        Sketch.noted (fun _ => none) rehearsed.calls photo.sketch = run.calls) ∧
      (∃ output', rehearsed.result = .ok output' ∧ output.Alike output') ∧
      (∀ made, .load source.size :: made <+: run.calls → .close ∉ made →
        ∃ last : Photo, B.replay made photo = .ok last ∧
          M.replay made (fresh photo) = .ok (fresh last)) ∧
      ∃ made, run.calls = .load source.size :: made ++ [.close] ∧ .close ∉ made ∧
        ∃ last : Photo, B.replay (made ++ [.close]) photo = .ok last.close ∧
          M.replay (made ++ [.close]) (fresh photo)
            = .ok { sketch := last.sketch, closed := true } := by
  intro B M run rehearsed fresh
  have hsim : M.Simulates B Photo.Sketched := rehearsal_simulates limits load photo.sketch
  have hloads : M.load source = .ok (fresh photo) := rfl
  have hpaired : photo.Sketched (fresh photo) := ⟨hpixelled, hknown, rfl⟩
  obtain ⟨hcalls, hresult⟩ := answer_simulated hsim hloaded hloads hpaired hok
  have hhandles (made : List (Call σ)) (hmade : .load source.size :: made <+: run.calls)
      (hopen : .close ∉ made) : ∃ last : Photo, B.replay made photo = .ok last ∧
        M.replay made (fresh photo) = .ok (fresh last) := by
    obtain ⟨last, sketched, hlast, hsketch, hpair⟩ :=
      handles_simulated hsim hloaded hpaired hok hopen hmade
    rw [hpair.rehearsed_eq] at hsketch
    exact ⟨last, hlast, hsketch⟩
  obtain ⟨made, hmade, hopen⟩ :=
    (process_follows B.undisturbed settings interruption source descriptor).closes_of_ok hok
  have hclosing : ∃ last : Photo, B.replay (made ++ [.close]) photo = .ok last.close ∧
      M.replay (made ++ [.close]) (fresh photo)
        = .ok { sketch := last.sketch, closed := true } := by
    obtain ⟨last, hlast, hsketch⟩ := hhandles made ⟨[.close], hmade.symm⟩ hopen
    exact ⟨last, Backend.replay_append_ok hlast, Backend.replay_append_ok hsketch⟩
  refine ⟨⟨hcalls, ?_⟩, hresult, hhandles, made, hmade, hopen, hclosing⟩
  obtain ⟨last, -, hreplayed⟩ := hclosing
  have hall : M.replay run.calls (fresh photo)
      = .ok { sketch := last.sketch, closed := true } := by
    rw [hmade]
    exact hreplayed
  rw [hcalls]
  exact Sketch.noted_of_replay hall

def redDot : ByteArray := ⟨(Container.Bitmap.write 1 1 [255, 0, 0]).toArray⟩

theorem decode_redDot :
    ∃ photo, Photo.decode {} redDot = .ok photo ∧
      photo.Sketched { sketch := ⟨⟨1, 1, false⟩, .bmp⟩ } := by
  have hdecoded : (Photo.decode {} redDot).toOption.map Photo.sketch
      = some ⟨⟨1, 1, false⟩, .bmp⟩ := by decide +kernel
  cases hloaded : Photo.decode {} redDot with
  | error e =>
    rw [hloaded] at hdecoded
    cases hdecoded
  | ok photo =>
    rw [hloaded] at hdecoded
    have hsketch : photo.sketch = ⟨⟨1, 1, false⟩, .bmp⟩ := Option.some.inj hdecoded
    have hshape : photo.picture.shape = ⟨1, 1, false⟩ := congrArg Sketch.shape hsketch
    have hformat : photo.format = .bmp := congrArg Sketch.format hsketch
    refine ⟨photo, rfl, ?_, ?_, congrArg (Rehearsed.mk · false) hsketch.symm⟩
    · rw [hshape]
      exact ⟨by decide, by decide⟩
    · rw [hformat]
      decide

/-- One red pixel is padded to four and marked, and all of it is rehearsed. -/
theorem process_rehearsed_of_red :
    let descriptor := "resize,m_pad,w_2,h_2/watermark,text_QQ,size_1"
    let B : Backend Rat := pixels {} (Photo.decode {})
    let settings : Settings := { margin := 0 }
    let run := process B settings .never redDot descriptor
    ∃ photo, Photo.decode {} redDot = .ok photo ∧
      let M : Backend Rat := rehearsal photo.sketch fun _ => none
      let rehearsed := process M settings .never redDot descriptor
      run.calls.map Call.name
          = ["load", "resize_axes", "embed", "add_alpha", "watermark", "encode", "close"] ∧
        rehearsed.calls = run.calls ∧
        Sketch.noted (fun _ => none) rehearsed.calls photo.sketch = run.calls := by
  intro descriptor B settings run
  obtain ⟨photo, hloaded, hsketched⟩ := decode_redDot
  have hsucceeds : run.result.isOk = true := by decide +kernel
  have hnames : run.calls.map Call.name
      = ["load", "resize_axes", "embed", "add_alpha", "watermark", "encode", "close"] := by
    decide +kernel
  refine ⟨photo, hloaded, hnames, ?_⟩
  cases hresult : run.result with
  | error e =>
    rw [hresult] at hsucceeds
    cases hsucceeds
  | ok output =>
    exact (process_rehearsed {} (Photo.decode {}) settings .never redDot descriptor hloaded
      hsketched.pixelled hsketched.known hresult).1

/-- The closing call of a run is not rehearsed: it leaves no pixels of a photo, but the sides of the
sketch as they were. -/
theorem close_not_rehearsed :
    let B : Backend Rat := pixels {} (Photo.decode {})
    let run := process B {} .never redDot "info"
    ∃ photo : Photo, Photo.decode {} redDot = .ok photo ∧ photo.picture.shape.Pixelled ∧
      photo.format ≠ .unknown ∧ (∃ output, run.result = .ok output) ∧
        let M : Backend Rat := rehearsal photo.sketch fun _ => none
        ¬ ∀ made, .load redDot.size :: made <+: run.calls →
          ∃ (last : Photo) (sketched : Rehearsed), B.replay made photo = .ok last ∧
            M.replay made ({ sketch := photo.sketch } : Rehearsed) = .ok sketched ∧
              sketched.sketch = last.sketch := by
  intro B run
  obtain ⟨photo, hloaded, hsketched⟩ := decode_redDot
  have hread : Request.read {} "info" = .ok .info := by rfl
  have hrun : run = _ := process_opened hread rfl hloaded
  refine ⟨photo, hloaded, hsketched.pixelled, hsketched.known, ?_, ?_⟩
  · rw [hrun]
    exact ⟨_, rfl⟩
  · intro M hrehearsed
    have hcalls : [.load redDot.size, .close] <+: run.calls := by
      rw [hrun]
      exact List.prefix_refl _
    obtain ⟨last, sketched, hlast, hkept, hsame⟩ := hrehearsed [.close] hcalls
    cases hlast
    cases hkept
    have hsketch : photo.sketch = ⟨⟨1, 1, false⟩, .bmp⟩ :=
      (congrArg Rehearsed.sketch hsketched.rehearsed_eq).symm
    have hclosed : photo.sketch = photo.close.sketch := hsame
    rw [hsketch] at hclosed
    have hwidth : (1 : UInt32) = 0 := congrArg (fun sketch => sketch.shape.width) hclosed
    exact absurd hwidth (by decide)

end ImagePipeline
