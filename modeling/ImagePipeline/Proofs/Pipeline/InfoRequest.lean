import ImagePipeline.Proofs.Pipeline.Cancelling
import ImagePipeline.Proofs.Pipeline.Refusal
import ImagePipeline.Proofs.Text.Grammar

/-!
# Requests for information

A descriptor may ask for `info` in any of its segments. The segment raises a flag that no later
segment takes down (`Descriptor.info_iff`), and planning looks at the flag before it looks at
anything else. So whatever stands beside `info` has no part in the run: it is the run of the
descriptor `info` (`process_asked_for_info`).
-/

namespace ImagePipeline

namespace Descriptor

/-- The flag is up exactly when some segment is named `info`, wherever it stands. -/
theorem info_iff {text : String} {d : Descriptor} (h : parse text = .ok d) :
    d.info = true ↔
      ∃ segment ∈ Text.pieces '/' text.toList, segmentName segment = "info".toList :=
  (parse_files h).info

end Descriptor

theorem Request.read_of_info {settings : Settings} {descriptor : String} {d : Descriptor}
    (hparse : Descriptor.parse (Descriptor.stripNamespace descriptor) = .ok d)
    (hinfo : d.info = true) : read settings descriptor = .ok .info := by
  rw [read_of_parsed hparse, Descriptor.plan, hinfo]
  rfl

/-- A run whose descriptor has a segment named `info` is the run of the descriptor `info`, whatever
the other segments are: unless it is cancelled before it starts it loads the source and closes it,
and it reports what the source is like. -/
theorem process_asked_for_info {σ : Type} [Scale σ] (B : Backend σ) (settings : Settings)
    (interruption : Interruption σ) (source : ByteArray) {descriptor : String} {d : Descriptor}
    (hparse : Descriptor.parse (Descriptor.stripNamespace descriptor) = .ok d)
    (hasked : ∃ segment ∈ Text.pieces '/' (Descriptor.stripNamespace descriptor).toList,
      Descriptor.segmentName segment = "info".toList) :
    let run := process B settings interruption source descriptor
    run = process B settings interruption source "info" ∧
      (interruption.atStart = true → run = ⟨[], .error .cancelled⟩) ∧
      (interruption.atStart = false →
        (∀ e, B.load source = .error e → run = ⟨[.load source.size], .error (.ofBackend e)⟩) ∧
        ∀ handle, B.load source = .ok handle →
          run = ⟨[.load source.size, .close], .ok (.info ⟨source.size, B.format handle,
            (B.shape handle).height, (B.shape handle).width⟩)⟩) := by
  intro run
  have hread : Request.read settings descriptor = .ok .info :=
    Request.read_of_info hparse ((Descriptor.info_iff hparse).mpr hasked)
  have halone : Request.read settings "info" = .ok .info := rfl
  refine ⟨?_, ?_, ?_⟩
  · simp only [run, process, hread, halone]
  · intro hstart
    simp only [run, process, hread, hstart, if_true]
  · intro hstart
    refine ⟨?_, ?_⟩
    · intro e hload
      simp only [run, process, hread, hstart, hload, Bool.false_eq_true, if_false]
    · intro handle hload
      exact process_report hload hread hstart

/-- Options that are refused, a name that is not known and two formats stand around the `info`; the
source is a 4 by 2 image of nine bytes. -/
theorem process_asked_for_info_of_refused :
    let B : Backend Rat := rehearsal ⟨⟨4, 2, true⟩, .gif⟩ fun _ => none
    let source : ByteArray := ⟨Array.replicate 9 0⟩
    let descriptor := "image/resize,m_pad/format/info,w_1/sharpen,100/format,png"
    let run := process B {} .never source descriptor
    run = process B {} .never source "info" ∧
      run = ⟨[.load 9, .close], .ok (.info ⟨9, .gif, 2, 4⟩)⟩ := by
  intro B source descriptor run
  let d : Descriptor :=
    { operations := [⟨"resize", ["m_pad"]⟩, ⟨"sharpen", ["100"]⟩],
      format := some ⟨"format", ["png"]⟩, info := true }
  have hparse : Descriptor.parse (Descriptor.stripNamespace
      "image/resize,m_pad/format/info,w_1/sharpen,100/format,png") = .ok d := by rfl
  have hasked : ∃ segment ∈ Text.pieces '/' (Descriptor.stripNamespace
      "image/resize,m_pad/format/info,w_1/sharpen,100/format,png").toList,
      Descriptor.segmentName segment = "info".toList :=
    ⟨"info,w_1".toList, by decide, rfl⟩
  obtain ⟨hsame, -, hreport⟩ := process_asked_for_info B {} .never source hparse hasked
  exact ⟨hsame, (hreport rfl).2 { sketch := ⟨⟨4, 2, true⟩, .gif⟩ } rfl⟩

end ImagePipeline
