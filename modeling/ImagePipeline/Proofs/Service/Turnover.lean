import Mathlib.Data.List.Induction
import ImagePipeline.Proofs.Service.Loans

/-!
# The turnover of a pool

Buffers are lent and come back one at a time, in whatever order their holders please, and what is
written into them in between is up to the holders (`Loans.Course`). The pool keeps its accounts all
the same (`Loans.course_accounts`): it never keeps more buffers than it may, every buffer that was
kept lies idle or has been lent again, and the loans that are out are those that have not come back.
All of this follows from the order in which buffers are lent and come back, for that order
determines the pool (`Loans.Course.pool_eq`). Named holders who borrow, write and give back are a
special case (`Loans.accounts_after`).
-/

namespace ImagePipeline

/-- What a pool sees of its holders: it lends a buffer, or one comes back. -/
inductive Turn where
  | lent
  | returned
  deriving DecidableEq, Repr

/-! ### The pool after its turns -/

namespace BufferPool

variable (pool : BufferPool)

theorem stats_checkout : pool.checkout.2.stats =
    ⟨pool.stats.checkouts + 1, pool.stats.reuseHits + min 1 pool.stats.idle,
      pool.stats.idle - 1⟩ := by
  unfold checkout
  split
  · rename_i hidle
    simp only [stats, hidle, List.length_nil]
    rfl
  · rename_i first rest hidle
    simp only [stats, hidle, List.length_cons, Nat.add_sub_cancel]
    rw [Nat.min_eq_left (Nat.le_add_left 1 rest.length)]

theorem maxIdle_checkout : pool.checkout.2.maxIdle = pool.maxIdle := by
  unfold checkout
  split <;> rfl

/-- What was written into a buffer makes no difference once it has come back. -/
theorem giveBack_content (buffer other : ByteArray) : pool.giveBack buffer = pool.giveBack other :=
  rfl

theorem stats_giveBack (buffer : ByteArray) : (pool.giveBack buffer).stats =
    { pool.stats with idle :=
        if pool.stats.idle < pool.maxIdle then pool.stats.idle + 1 else pool.stats.idle } := by
  unfold giveBack
  by_cases hroom : pool.idle.length < pool.maxIdle
  · have hroom' : pool.stats.idle < pool.maxIdle := hroom
    rw [if_pos hroom, if_pos hroom']
    rfl
  · have hfull : ¬ pool.stats.idle < pool.maxIdle := hroom
    rw [if_neg hroom, if_neg hfull]

theorem maxIdle_giveBack (buffer : ByteArray) : (pool.giveBack buffer).maxIdle = pool.maxIdle := by
  unfold giveBack
  split <;> rfl

def turn : Turn → BufferPool
  | .lent => pool.checkout.2
  | .returned => pool.giveBack ByteArray.empty

def after (turns : List Turn) : BufferPool := turns.foldl turn pool

theorem after_concat (turns : List Turn) (last : Turn) :
    pool.after (turns ++ [last]) = (pool.after turns).turn last := by
  rw [after, List.foldl_append]
  rfl

/-- How many of the buffers that came back the pool has kept: one more lay idle afterwards. -/
def kept (pool : BufferPool) : List Turn → Nat
  | [] => 0
  | .lent :: rest => kept (pool.turn .lent) rest
  | .returned :: rest =>
    (if (pool.turn .returned).stats.idle = pool.stats.idle + 1 then 1 else 0)
      + kept (pool.turn .returned) rest

theorem kept_append (first second : List Turn) :
    pool.kept (first ++ second) = pool.kept first + (pool.after first).kept second := by
  induction first generalizing pool with
  | nil => exact (Nat.zero_add _).symm
  | cons turn rest ih =>
    cases turn with
    | lent => exact ih _
    | returned =>
      simp only [List.cons_append, kept]
      rw [ih, Nat.add_assoc]
      rfl

/-! ### Accounts -/

/-- The accounts of a pool that began without buffers and has seen these turns. -/
structure Balanced (maxIdle : Nat) (turns : List Turn) : Prop where
  maxIdle_eq : pool.maxIdle = maxIdle
  idle_le : pool.stats.idle ≤ maxIdle
  clean : pool.Clean
  reuse_le : pool.stats.reuseHits ≤ pool.stats.checkouts
  checkouts_eq : pool.stats.checkouts = turns.count .lent
  kept_eq : (new maxIdle).kept turns = pool.stats.reuseHits + pool.stats.idle

theorem balanced_new (maxIdle : Nat) : (new maxIdle).Balanced maxIdle [] :=
  ⟨rfl, Nat.zero_le _, clean_new maxIdle, Nat.le_refl _, rfl, rfl⟩

variable {pool} {maxIdle : Nat} {turns : List Turn}

theorem Balanced.lent (h : pool.Balanced maxIdle turns) :
    (pool.turn .lent).Balanced maxIdle (turns ++ [.lent]) := by
  have hstats : (pool.turn .lent).stats = _ := pool.stats_checkout
  have hidle := h.idle_le
  have hreuse := h.reuse_le
  have hkept := h.kept_eq
  have hkept' : (new maxIdle).kept (turns ++ [.lent]) = (new maxIdle).kept turns := kept_append ..
  constructor
  · exact pool.maxIdle_checkout.trans h.maxIdle_eq
  · rw [hstats]
    dsimp only
    omega
  · exact h.clean.checkout.2
  · rw [hstats]
    dsimp only
    omega
  · rw [hstats, List.count_append, ← h.checkouts_eq]
    rfl
  · -- a buffer that is lent again no longer lies idle
    rw [hstats, hkept']
    dsimp only
    omega

theorem Balanced.returned (h : pool.Balanced maxIdle turns)
    (hpool : pool = (new maxIdle).after turns) :
    (pool.turn .returned).Balanced maxIdle (turns ++ [.returned]) := by
  have hstats : (pool.turn .returned).stats = _ := pool.stats_giveBack ByteArray.empty
  have hmax := h.maxIdle_eq
  have hidle := h.idle_le
  have hkept := h.kept_eq
  have hkept' : (new maxIdle).kept (turns ++ [.returned]) = (new maxIdle).kept turns
      + if (pool.turn .returned).stats.idle = pool.stats.idle + 1 then 1 else 0 := by
    rw [kept_append, ← hpool]
    rfl
  constructor
  · exact (pool.maxIdle_giveBack _).trans h.maxIdle_eq
  · rw [hstats]
    dsimp only
    split
    · omega
    · omega
  · exact h.clean.giveBack _
  · rw [hstats]
    exact h.reuse_le
  · rw [hstats, List.count_append, ← h.checkouts_eq]
    rfl
  · rw [hkept', hstats]
    dsimp only
    split
    · rw [if_pos rfl]
      omega
    · rw [if_neg (Nat.ne_of_lt (Nat.lt_succ_self _))]
      omega

theorem balanced_after (maxIdle : Nat) (turns : List Turn) :
    ((new maxIdle).after turns).Balanced maxIdle turns := by
  -- from the back, for the last turn is the one that the pool takes last
  induction turns using List.reverseRecOn with
  | nil => exact balanced_new maxIdle
  | append_singleton turns last ih =>
    rw [after_concat]
    cases last with
    | lent => exact ih.lent
    | returned => exact ih.returned rfl

end BufferPool

/-! ### Loans in any order -/

namespace Loans

/-- How things go between a pool and its holders, one at a time: a buffer is lent, the holders write
what they like into the buffers they hold, one of these comes back. Beside the loans stand the turns
that the pool has seen. -/
inductive Course (maxIdle : Nat) : List Turn → Loans → Prop where
  | start : Course maxIdle [] ⟨.new maxIdle, []⟩
  | lend {turns : List Turn} {loans : Loans} (before : Course maxIdle turns loans)
      (holder : String) :
      Course maxIdle (turns ++ [.lent])
        ⟨loans.pool.checkout.2, (holder, loans.pool.checkout.1) :: loans.out⟩
  | write {turns : List Turn} {loans : Loans} (before : Course maxIdle turns loans)
      {out : List (String × ByteArray)} (held : out.map Prod.fst = loans.out.map Prod.fst) :
      Course maxIdle turns ⟨loans.pool, out⟩
  | giveBack {turns : List Turn} {loans : Loans} (before : Course maxIdle turns loans)
      {first rest : List (String × ByteArray)} {loan : String × ByteArray}
      (held : loans.out = first ++ loan :: rest) :
      Course maxIdle (turns ++ [.returned]) ⟨loans.pool.giveBack loan.2, first ++ rest⟩

section

variable {maxIdle : Nat} {turns : List Turn} {loans : Loans}

theorem Course.pool_eq (h : Course maxIdle turns loans) :
    loans.pool = (BufferPool.new maxIdle).after turns := by
  induction h with
  | start => rfl
  | lend _ _ ih =>
    rw [BufferPool.after_concat, ← ih]
    rfl
  | write _ _ ih => exact ih
  | giveBack _ _ ih =>
    rw [BufferPool.after_concat, ← ih]
    exact BufferPool.giveBack_content ..

theorem Course.length_out (h : Course maxIdle turns loans) :
    loans.out.length + turns.count .returned = turns.count .lent := by
  have hother : [Turn.lent].count .returned = 0 ∧ [Turn.returned].count .lent = 0 := ⟨rfl, rfl⟩
  induction h with
  | start => rfl
  | lend _ _ ih =>
    rw [List.count_append, List.count_append, List.count_singleton_self, hother.1, List.length_cons]
    omega
  | write _ hheld ih =>
    have hlength := congrArg List.length hheld
    rw [List.length_map, List.length_map] at hlength
    rw [← ih]
    exact congrArg (· + _) hlength
  | giveBack _ hheld ih =>
    rw [hheld, List.length_append, List.length_cons] at ih
    rw [List.count_append, List.count_append, List.count_singleton_self, hother.2,
      List.length_append]
    omega

/-- The accounts of a pool and its loans at some moment. -/
structure Accounts (maxIdle : Nat) (turns : List Turn) (loans : Loans) : Prop where
  idle_le : loans.pool.stats.idle ≤ maxIdle
  idle_empty : ∀ buffer ∈ loans.pool.idle, buffer = ByteArray.empty
  reuse_le : loans.pool.stats.reuseHits ≤ loans.pool.stats.checkouts
  checkouts_eq : loans.pool.stats.checkouts = turns.count .lent
  out_eq : loans.out.length + turns.count .returned = loans.pool.stats.checkouts
  kept_eq : (BufferPool.new maxIdle).kept turns
    = loans.pool.stats.reuseHits + loans.pool.stats.idle
  lends_empty : loans.pool.checkout.1 = ByteArray.empty
  /-- The next buffer that comes back is kept, unless as many lie idle as may. -/
  takes_back : ∀ buffer,
    (loans.pool.giveBack buffer).stats.idle = loans.pool.stats.idle + 1 ∨
      loans.pool.stats.idle = maxIdle ∧ loans.pool.giveBack buffer = loans.pool

theorem Course.accounts (h : Course maxIdle turns loans) : loans.Accounts maxIdle turns := by
  have hbalanced : loans.pool.Balanced maxIdle turns :=
    h.pool_eq ▸ BufferPool.balanced_after maxIdle turns
  refine ⟨hbalanced.idle_le, hbalanced.clean, hbalanced.reuse_le, hbalanced.checkouts_eq, ?_,
    hbalanced.kept_eq, hbalanced.clean.checkout.1, ?_⟩
  · rw [h.length_out, hbalanced.checkouts_eq]
  · intro buffer
    have hstats := loans.pool.stats_giveBack buffer
    rcases Nat.lt_or_ge loans.pool.stats.idle loans.pool.maxIdle with hroom | hfull
    · left
      rw [hstats, if_pos hroom]
    · right
      have hmax := hbalanced.maxIdle_eq
      have hidle := hbalanced.idle_le
      exact ⟨by omega, if_neg (Nat.not_lt.mpr hfull)⟩

/-- In whatever order buffers are lent, written to and given back, the accounts are in order at
every moment, and the counters show nothing but the order of the turns. -/
theorem course_accounts (h : Course maxIdle turns loans) :
    loans.Accounts maxIdle turns ∧
      ∀ other : Loans, Course maxIdle turns other → other.pool.stats = loans.pool.stats := by
  refine ⟨h.accounts, ?_⟩
  intro other hother
  rw [hother.pool_eq, h.pool_eq]

/-- Two holders, and room for one idle buffer: the second that comes back is not kept. -/
theorem course_accounts_of_two :
    ∃ loans : Loans, Course 1 [.lent, .lent, .returned, .returned, .lent] loans ∧
      loans.Accounts 1 [.lent, .lent, .returned, .returned, .lent] ∧
      loans.pool.stats = ⟨3, 1, 0⟩ := by
  let content : ByteArray := ⟨#[104, 105]⟩
  have hlent : Course 1 [.lent] ⟨⟨1, [], 1, 0⟩, [("a", ByteArray.empty)]⟩ := Course.start.lend "a"
  have hwritten : Course 1 [.lent] ⟨⟨1, [], 1, 0⟩, [("a", content)]⟩ := hlent.write rfl
  have hboth : Course 1 [.lent, .lent]
      ⟨⟨1, [], 2, 0⟩, [("b", ByteArray.empty), ("a", content)]⟩ := hwritten.lend "b"
  have hheld : [("b", ByteArray.empty), ("a", content)]
      = [("b", ByteArray.empty)] ++ ("a", content) :: [] := rfl
  have hkept : Course 1 [.lent, .lent, .returned]
      ⟨⟨1, [ByteArray.empty], 2, 0⟩, [("b", ByteArray.empty)]⟩ := hboth.giveBack hheld
  have hheld' : [("b", ByteArray.empty)] = [] ++ ("b", ByteArray.empty) :: [] := rfl
  have hfreed : Course 1 [.lent, .lent, .returned, .returned]
      ⟨⟨1, [ByteArray.empty], 2, 0⟩, []⟩ := hkept.giveBack hheld'
  have hagain : Course 1 [.lent, .lent, .returned, .returned, .lent]
      ⟨⟨1, [], 3, 1⟩, [("c", ByteArray.empty)]⟩ := hfreed.lend "c"
  exact ⟨_, hagain, (course_accounts hagain).1, rfl⟩

end

/-! ### Events -/

/-- The turns that an event takes. A holder who is lent a buffer gives back the one they had. -/
def turns (l : Loans) : LoanEvent → List Turn
  | .checkout holder => if (l.buffer? holder).isSome then [.lent, .returned] else [.lent]
  | .write _ _ => []
  | .drop holder => if (l.buffer? holder).isSome then [.returned] else []

def history (l : Loans) : List LoanEvent → List Turn
  | [] => []
  | event :: rest => l.turns event ++ history (l.step event) rest

/-- Nobody holds two buffers. -/
def Distinct (l : Loans) : Prop := (l.out.map Prod.fst).Nodup

section

variable {loans : Loans} {holder : String} {buffer : ByteArray}

theorem drop_of_none (h : loans.buffer? holder = none) : loans.drop holder = loans := by
  rw [drop, h]

theorem drop_of_some (h : loans.buffer? holder = some buffer) :
    loans.drop holder = ⟨loans.pool.giveBack buffer, loans.others holder⟩ := by
  rw [drop, h]

theorem not_mem_others (loans : Loans) (holder : String) :
    holder ∉ (loans.others holder).map Prod.fst := by
  intro hmem
  obtain ⟨loan, hloan, rfl⟩ := List.mem_map.mp hmem
  exact bne_iff_ne.mp (List.mem_filter.mp hloan).2 rfl

theorem not_mem_of_buffer? (h : loans.buffer? holder = none) :
    holder ∉ loans.out.map Prod.fst := by
  intro hmem
  obtain ⟨loan, hloan, rfl⟩ := List.mem_map.mp hmem
  have hfind := List.find?_eq_none.mp (Option.map_eq_none_iff.mp h) loan hloan
  exact hfind (beq_self_eq_true _)

theorem Distinct.others (h : loans.Distinct) (holder : String) :
    ((loans.others holder).map Prod.fst).Nodup :=
  h.sublist (List.filter_sublist.map _)

theorem held_of_buffer? (h : loans.Distinct) (hbuffer : loans.buffer? holder = some buffer) :
    ∃ first rest, loans.out = first ++ (holder, buffer) :: rest ∧
      loans.others holder = first ++ rest := by
  obtain ⟨⟨name, content⟩, hfind, rfl⟩ := Option.map_eq_some_iff.mp hbuffer
  obtain ⟨hname, first, rest, hout, hfirst⟩ := List.find?_eq_some_iff_append.mp hfind
  obtain rfl : name = holder := eq_of_beq hname
  refine ⟨first, rest, hout, ?_⟩
  rw [Distinct, hout, List.map_append, List.map_cons, List.nodup_append] at h
  have hrest := (List.nodup_cons.mp h.2.1).1
  have hsame : ((name, content).1 != name) = false := bne_self_eq_false name
  rw [Loans.others, hout, List.filter_append,
    List.filter_cons_of_neg (by rw [hsame]; exact Bool.false_ne_true)]
  congr 1
  · exact List.filter_eq_self.mpr fun loan hloan => hfirst loan hloan
  · refine List.filter_eq_self.mpr fun loan hloan => bne_iff_ne.mpr ?_
    intro hholder
    exact hrest (List.mem_map.mpr ⟨loan, hloan, hholder⟩)

end

section

variable {maxIdle : Nat} {taken : List Turn} {loans : Loans}

theorem course_step (h : Course maxIdle taken loans) (hdistinct : loans.Distinct)
    (event : LoanEvent) :
    Course maxIdle (taken ++ loans.turns event) (loans.step event) ∧
      (loans.step event).Distinct := by
  cases event with
  | checkout holder =>
    have hlent := h.lend holder
    -- the buffer that the holder had is looked up among the loans as they were
    have hsame : buffer? ⟨loans.pool.checkout.2, loans.out⟩ holder = loans.buffer? holder := rfl
    rw [step, checkout]
    dsimp only
    rcases hbuffer : loans.buffer? holder with _ | buffer
    · rw [turns, hbuffer, drop_of_none (hsame.trans hbuffer)]
      exact ⟨hlent, List.nodup_cons.mpr ⟨not_mem_of_buffer? hbuffer, hdistinct⟩⟩
    · rw [turns, hbuffer, drop_of_some (hsame.trans hbuffer)]
      obtain ⟨first, rest, hout, hothers⟩ := held_of_buffer? hdistinct hbuffer
      have hheld : (holder, loans.pool.checkout.1) :: loans.out
          = ((holder, loans.pool.checkout.1) :: first) ++ (holder, buffer) :: rest := by
        rw [hout, List.cons_append]
      have hreturned := hlent.giveBack hheld
      rw [List.append_assoc, show _ :: first ++ rest = _ :: (first ++ rest) from rfl,
        ← hothers] at hreturned
      exact ⟨hreturned,
        List.nodup_cons.mpr ⟨not_mem_others loans holder, hdistinct.others holder⟩⟩
  | write holder bytes =>
    have hheld : (loans.step (.write holder bytes)).out.map Prod.fst = loans.out.map Prod.fst := by
      rw [step, List.map_map]
      refine List.map_congr_left fun loan _ => ?_
      simp only [Function.comp_apply]
      split
      · rfl
      · rfl
    rw [turns, List.append_nil]
    refine ⟨h.write hheld, ?_⟩
    rw [Distinct, hheld]
    exact hdistinct
  | drop holder =>
    rw [step]
    rcases hbuffer : loans.buffer? holder with _ | buffer
    · rw [turns, hbuffer, drop_of_none hbuffer]
      exact ⟨(List.append_nil taken).symm ▸ h, hdistinct⟩
    · rw [turns, hbuffer, drop_of_some hbuffer]
      obtain ⟨first, rest, hout, hothers⟩ := held_of_buffer? hdistinct hbuffer
      have hreturned := h.giveBack hout
      rw [← hothers] at hreturned
      exact ⟨hreturned, hdistinct.others holder⟩

theorem course_history (h : Course maxIdle taken loans) (hdistinct : loans.Distinct)
    (events : List LoanEvent) :
    Course maxIdle (taken ++ loans.history events) (loans.steps events) := by
  induction events generalizing taken loans with
  | nil =>
    rw [history, List.append_nil]
    exact h
  | cons event rest ih =>
    obtain ⟨hnext, hnext'⟩ := course_step h hdistinct event
    have hrest := ih hnext hnext'
    rw [List.append_assoc] at hrest
    exact hrest

end

theorem course_after (maxIdle : Nat) (events : List LoanEvent) :
    Course maxIdle (history ⟨.new maxIdle, []⟩ events) (Loans.after maxIdle events) :=
  course_history .start List.nodup_nil events

theorem accounts_after (maxIdle : Nat) (events : List LoanEvent) :
    (Loans.after maxIdle events).Accounts maxIdle (history ⟨.new maxIdle, []⟩ events) :=
  (course_after maxIdle events).accounts

end Loans

end ImagePipeline
