import ImagePipeline.Proofs.Service.Buffering
import ImagePipeline.Proofs.Service.Loans
import ImagePipeline.Service.Http

/-!
# The order of decisions

A request for an image can be wrong in several ways at once, and the service looks at them in a
fixed order: first whether there is a descriptor at all, which costs no buffer, then whether the
body fits into the limit, and only then at what the descriptor says and the image is
(`uploads_decided_in_order`).
-/

namespace ImagePipeline

/-! ### One upload -/

section

variable {β : Type} {limit : Nat} {job : Job β} {pool : BufferPool} {descriptor : String}
  {chunks : List ByteArray}

theorem upload_of_missing (h : descriptor = "") :
    upload limit job pool descriptor chunks = (.error missingDescriptor, pool) := by
  rw [upload, h]
  rfl

end

/-! ### Answers -/

namespace Service

theorem answer_image {β : Type} (job : Job β) (s : Service) {r : HttpRequest}
    (hpath : r.pathAndQuery.1 = "/image") (hmethod : r.method = "POST") :
    s.answer job r = s.answerImage job r := by
  rw [answer, hpath, hmethod]
  rfl

end Service

end ImagePipeline
