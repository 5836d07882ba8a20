import ImagePipeline.Proofs.Service.FrontEnd
import ImagePipeline.Proofs.Service.Turnover

/-!
# Requests in turn

A service that answers its requests one after another has all its buffers back in between, whatever
comes of the requests: a body may be too large, a job may succeed, fail or end in a panic. One
buffer is enough for all of them (`Service.serve_accounts`).
-/

namespace ImagePipeline

/-! ### Loans one after another -/

/-- The turns that a pool sees when so many buffers are lent, each after the last has come back. -/
def rounds : Nat → List Turn
  | 0 => []
  | n + 1 => rounds n ++ [.lent, .returned]

namespace BufferPool

/-- One buffer is lent and comes back. -/
theorem stats_round (pool : BufferPool) : ((pool.turn .lent).turn .returned).stats =
    ⟨pool.stats.checkouts + 1, pool.stats.reuseHits + min 1 pool.stats.idle,
      if pool.stats.idle - 1 < pool.maxIdle then pool.stats.idle - 1 + 1
      else pool.stats.idle - 1⟩ := by
  rw [turn, turn, stats_giveBack, maxIdle_checkout, stats_checkout]

theorem stats_after_rounds (maxIdle n : Nat) :
    ((new maxIdle).after (rounds n)).stats =
      if maxIdle = 0 ∨ n = 0 then ⟨n, 0, 0⟩ else ⟨n, n - 1, 1⟩ := by
  induction n with
  | zero =>
    rw [if_pos (Or.inr rfl)]
    rfl
  | succ n ih =>
    have hmax := (balanced_after maxIdle (rounds n)).maxIdle_eq
    have hround : (new maxIdle).after (rounds (n + 1))
        = (((new maxIdle).after (rounds n)).turn .lent).turn .returned := by
      rw [rounds, after, List.foldl_append]
      rfl
    rw [hround, stats_round, hmax, ih]
    rcases Nat.eq_zero_or_pos maxIdle with rfl | (hroom : 0 < maxIdle)
    · rw [if_pos (Or.inl rfl), if_pos (Or.inl rfl)]
      rfl
    · have hlater : ¬ (maxIdle = 0 ∨ n + 1 = 0) := by omega
      rw [if_neg hlater]
      rcases Nat.eq_zero_or_pos n with rfl | hsome
      · rw [if_pos (Or.inr rfl)]
        simp only [if_pos hroom, Nat.zero_sub, Nat.min_zero, Nat.zero_add, Nat.sub_self]
      · have hused : ¬ (maxIdle = 0 ∨ n = 0) := by omega
        rw [if_neg hused]
        simp only [if_pos hroom, Nat.sub_self, Nat.min_self, Nat.add_sub_cancel, Nat.zero_add,
          Nat.sub_add_cancel hsome]

end BufferPool

/-! ### Requests one after another -/

namespace Service

variable {β : Type}

/-- Whether an answer takes a buffer: an image is posted, and there is a descriptor. -/
def borrows (r : HttpRequest) : Bool :=
  r.pathAndQuery.1 == "/image" && r.method == "POST" && !r.descriptor.isEmpty

/-- The service when it has answered some requests, each of which it gave to a job of its own. -/
def serve (s : Service) (requests : List (Job β × HttpRequest)) : Service :=
  requests.foldl (fun s request => (s.answer request.1 request.2).2) s

theorem serve_concat (s : Service) (requests : List (Job β × HttpRequest))
    (last : Job β × HttpRequest) :
    s.serve (requests ++ [last]) = ((s.serve requests).answer last.1 last.2).2 := by
  rw [serve, List.foldl_append]
  rfl

/-- Whatever the job makes of an upload, its buffer goes back. -/
theorem course_upload {limit maxIdle : Nat} {turns : List Turn} {pool : BufferPool}
    (h : Loans.Course maxIdle turns ⟨pool, []⟩) (job : Job β) {descriptor : String}
    (chunks : List ByteArray) (hsome : descriptor.isEmpty = false) :
    Loans.Course maxIdle (turns ++ [.lent, .returned])
      ⟨(upload limit job pool descriptor chunks).2, []⟩ := by
  rw [upload, hsome, if_neg Bool.false_ne_true]
  have hlent := h.lend "request"
  have hwritten : Loans.Course maxIdle (turns ++ [.lent])
      ⟨pool.checkout.2, [("request", (readBody limit pool.checkout.1 chunks).1)]⟩ :=
    hlent.write rfl
  have hheld : [("request", (readBody limit pool.checkout.1 chunks).1)]
      = [] ++ ("request", (readBody limit pool.checkout.1 chunks).1) :: [] := rfl
  have hback := hwritten.giveBack hheld
  rw [List.append_assoc] at hback
  exact hback

theorem answerImage_pool (s : Service) (job : Job β) (r : HttpRequest) :
    (s.answerImage job r).2.pool =
      (upload s.config.server.maxBodyBytes.toNat job s.pool r.descriptor r.chunks).2 := by
  rw [answerImage]

theorem answer_of_other (s : Service) (job : Job β) {r : HttpRequest}
    (h : ¬ (r.pathAndQuery.1 = "/image" ∧ r.method = "POST")) : (s.answer job r).2 = s := by
  fun_cases answer
  case case1 hmethod hpath => exact absurd ⟨hpath, hmethod⟩ h
  all_goals rfl

theorem course_answer {maxIdle : Nat} {turns : List Turn} {s : Service}
    (h : Loans.Course maxIdle turns ⟨s.pool, []⟩) (job : Job β) (r : HttpRequest) :
    Loans.Course maxIdle (turns ++ if borrows r then [.lent, .returned] else [])
      ⟨(s.answer job r).2.pool, []⟩ := by
  by_cases hpost : r.pathAndQuery.1 = "/image" ∧ r.method = "POST"
  · have hborrows : borrows r = !r.descriptor.isEmpty := by
      rw [borrows, hpost.1, hpost.2, beq_self_eq_true, beq_self_eq_true, Bool.and_self,
        Bool.true_and]
    rw [answer_image job s hpost.1 hpost.2, answerImage_pool, hborrows]
    cases hmissing : r.descriptor.isEmpty with
    | true =>
      have hempty : r.descriptor = "" := by simpa using hmissing
      rw [upload_of_missing hempty]
      exact (List.append_nil turns).symm ▸ h
    | false => exact course_upload h job r.chunks hmissing
  · have hborrows : borrows r = false := by
      rw [borrows, Bool.and_eq_false_iff, ← Bool.not_eq_true, Bool.and_eq_true, beq_iff_eq,
        beq_iff_eq]
      exact Or.inl hpost
    rw [answer_of_other s job hpost, hborrows]
    exact (List.append_nil turns).symm ▸ h

theorem course_serve (config : ServiceConfig) (requests : List (Job β × HttpRequest)) :
    Loans.Course config.backend.bufferPoolSize.toNat
      (rounds (requests.countP fun request => borrows request.2))
      ⟨((new config).serve requests).pool, []⟩ := by
  induction requests using List.reverseRecOn with
  | nil => exact .start
  | append_singleton requests last ih =>
    have hlast := course_answer ih last.1 last.2
    rw [serve_concat, List.countP_append, List.countP_singleton]
    cases hborrows : borrows last.2 with
    | true =>
      rw [hborrows, if_pos rfl] at hlast
      exact hlast
    | false =>
      rw [hborrows, if_neg Bool.false_ne_true, List.append_nil] at hlast
      exact hlast

/-- Whatever comes of the requests, each of them has given its buffer back when it has been
answered. All but the first were lent what the one before gave back, if the pool may keep it. -/
theorem serve_accounts (config : ServiceConfig) (requests : List (Job β × HttpRequest)) :
    let pool := ((new config).serve requests).pool
    let maxIdle := config.backend.bufferPoolSize.toNat
    let n := requests.countP fun request => borrows request.2
    Loans.Course maxIdle (rounds n) ⟨pool, []⟩ ∧
      pool.stats = if maxIdle = 0 ∨ n = 0 then ⟨n, 0, 0⟩ else ⟨n, n - 1, 1⟩ := by
  intro pool maxIdle n
  have hcourse : Loans.Course maxIdle (rounds n) ⟨pool, []⟩ := course_serve config requests
  have hpool : pool = (BufferPool.new maxIdle).after (rounds n) := hcourse.pool_eq
  rw [hpool]
  exact ⟨hpool ▸ hcourse, BufferPool.stats_after_rounds maxIdle n⟩

end Service

end ImagePipeline
