/-!
# A pool of upload buffers

Every upload is read into a buffer on loan from a pool. A buffer that comes back is emptied and
kept for the next loan, unless the pool already keeps as many as it may. `BufferPool` holds the
idle buffers and the counters; `Loans` adds the buffers that are out, each under the name of its
holder.
-/

namespace ImagePipeline

structure BufferPool where
  /-- How many idle buffers the pool keeps at most. -/
  maxIdle : Nat
  /-- The idle buffers, the one that came back last in front. -/
  idle : List ByteArray := []
  checkouts : Nat := 0
  reuseHits : Nat := 0

structure PoolStats where
  checkouts : Nat
  reuseHits : Nat
  idle : Nat
  deriving DecidableEq, Repr

namespace BufferPool

def new (maxIdle : Nat) : BufferPool := { maxIdle := maxIdle }

def stats (p : BufferPool) : PoolStats := ⟨p.checkouts, p.reuseHits, p.idle.length⟩

def checkout (p : BufferPool) : ByteArray × BufferPool :=
  match p.idle with
  | [] => (ByteArray.empty, { p with checkouts := p.checkouts + 1 })
  | buffer :: rest =>
    (buffer, { p with idle := rest, checkouts := p.checkouts + 1, reuseHits := p.reuseHits + 1 })

def emptied (_buffer : ByteArray) : ByteArray := ByteArray.empty

/-- Takes a buffer back, emptied, unless enough are idle already. -/
def giveBack (p : BufferPool) (buffer : ByteArray) : BufferPool :=
  if p.idle.length < p.maxIdle then { p with idle := emptied buffer :: p.idle } else p

end BufferPool

structure Loans where
  pool : BufferPool
  out : List (String × ByteArray) := []

inductive LoanEvent where
  | checkout (holder : String)
  | write (holder : String) (bytes : ByteArray)
  | drop (holder : String)

namespace Loans

def buffer? (l : Loans) (holder : String) : Option ByteArray :=
  (l.out.find? fun loan => loan.1 == holder).map Prod.snd

def others (l : Loans) (holder : String) : List (String × ByteArray) :=
  l.out.filter fun loan => loan.1 != holder

/-- The holder's buffer goes back to the pool; a holder without one changes nothing. -/
def drop (l : Loans) (holder : String) : Loans :=
  match l.buffer? holder with
  | some buffer => ⟨l.pool.giveBack buffer, l.others holder⟩
  | none => l

/-- A fresh loan for a holder; what the holder had before goes back after the checkout. -/
def checkout (l : Loans) (holder : String) : Loans :=
  let (buffer, pool) := l.pool.checkout
  let rest := Loans.drop ⟨pool, l.out⟩ holder
  ⟨rest.pool, (holder, buffer) :: rest.out⟩

/-- The loans after an event; writing without a buffer changes nothing. -/
def step (l : Loans) : LoanEvent → Loans
  | .checkout holder => l.checkout holder
  | .write holder bytes =>
    { l with out := l.out.map fun loan =>
        if loan.1 == holder then (loan.1, loan.2 ++ bytes) else loan }
  | .drop holder => l.drop holder

def steps (l : Loans) (events : List LoanEvent) : Loans := events.foldl step l

end Loans

end ImagePipeline
