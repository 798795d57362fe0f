import ConcurrentServer.Log.BufferQueue

/-!
# Calls on a buffer queue

`src/log/log_queue.h:38–214`. Any number of threads call `push`, `clear`, `notify` and both
kinds of `pop` on one queue. The reports of the calls, in the order in which they left the
critical section, are those of a bounded FIFO queue, and what the observers read is what that
queue holds.
-/

namespace ConcurrentServer.Log
open ConcurrentServer.Base

variable {T : Type}

/-- Where a call of `pop` is; `timed` tells `pop(item, ms_timeout)` from `pop(item)`. -/
inductive PopPc (T : Type)
  /-- Not called yet. -/
  | idle
  /-- It found the queue empty and holds `b_mutex`; the wait comes next. -/
  | empty (timed : Bool)
  /-- Inside `wait` or `wait_for`. -/
  | waiting (timed notified : Bool)
  /-- It has returned, with an item or with `false`. -/
  | returned (got : Option T)
  deriving DecidableEq, Repr

/-- `notify_all` reaches the calls inside a wait. -/
def PopPc.notify : PopPc T → PopPc T
  | .waiting timed _ => .waiting timed true
  | pc => pc

/-- A queue, the `pop` call that holds `b_mutex` from one step to the next, all `pop` calls and
the reports so far. -/
structure QueueCalls (T : Type) where
  queue : BufferQueue T
  bMutex : Option Nat
  pops : Nat → PopPc T
  events : List (FifoEvent T)

/-- What can happen next. -/
inductive QueueAction (T : Type)
  | push (item : T)
  | clear
  | notify
  /-- Call `c` is made and runs up to its wait or to its end. -/
  | pop (c : Nat) (timed : Bool)
  /-- Call `c` releases the mutex and blocks. -/
  | block (c : Nat)
  /-- The wait of call `c` ends, with or without a notification, and the call returns. -/
  | wake (c : Nat)
  /-- The wait of call `c` reports a timeout, and the call returns. -/
  | timeout (c : Nat)
  deriving DecidableEq, Repr

namespace QueueCalls

/-- A queue on which no call has been made. -/
def init (queue : BufferQueue T) : QueueCalls T := ⟨queue, none, fun _ ↦ .idle, []⟩

/-- `buffer_queue::push`, with its `notify_all`; `src/log/log_queue.h:126–146`. -/
def push (s : QueueCalls T) (item : T) : QueueCalls T :=
  { s with
    queue := (s.queue.push item).2
    pops := fun c ↦ (s.pops c).notify
    events := s.events ++ [.push item (s.queue.push item).1] }

/-- Call `c` returns `false`. -/
def fail (s : QueueCalls T) (c : Nat) : QueueCalls T :=
  { s with
    pops := Function.update s.pops c (.returned none)
    events := s.events ++ [.pop none] }

/-- Call `c` returns the oldest item. -/
def succeed (s : QueueCalls T) (c : Nat) : QueueCalls T :=
  { s with
    queue := s.queue.take.2
    pops := Function.update s.pops c (.returned (some s.queue.take.1))
    events := s.events ++ [.pop (some s.queue.take.1)] }

/-- The test of the size after a wait; `src/log/log_queue.h:160–163, 186–189`. -/
def retest (s : QueueCalls T) (c : Nat) : QueueCalls T :=
  if s.queue.bSize ≤ 0 then s.fail c else s.succeed c

/-- The step function. Whatever reads the queue needs the mutex. -/
def step (s : QueueCalls T) : QueueAction T → Option (QueueCalls T)
  | .push item => if s.bMutex = none then some (s.push item) else none
  | .clear =>
    if s.bMutex = none then
      some { s with queue := s.queue.clear, events := s.events ++ [.clear] }
    else none
  | .notify => some { s with pops := fun c ↦ (s.pops c).notify }
  | .pop c timed =>
    match s.pops c with
    | .idle =>
      if s.bMutex = none then
        if s.queue.bSize ≤ 0 then
          some { s with bMutex := some c, pops := Function.update s.pops c (.empty timed) }
        else some (s.succeed c)
      else none
    | _ => none
  | .block c =>
    match s.pops c with
    | .empty timed =>
      some { s with bMutex := none, pops := Function.update s.pops c (.waiting timed false) }
    | _ => none
  | .wake c =>
    match s.pops c with
    | .waiting _ _ => if s.bMutex = none then some (s.retest c) else none
    | _ => none
  | .timeout c =>
    match s.pops c with
    | .waiting true _ => if s.bMutex = none then some (s.fail c) else none
    | _ => none

/-- The queue holds what a bounded FIFO queue holds after the same reports. -/
structure Refines (capacity : Int) (debug : Bool) (s : QueueCalls T) (l : List T) : Prop where
  sameCapacity : s.queue.capacity = capacity
  sameDebug : s.queue.bDebug = debug
  holds : s.queue.Holds l
  run : FifoRun capacity.toNat s.events l

variable {capacity : Int} {debug : Bool} {s t : QueueCalls T} {l : List T}

/-- Before the first call. -/
theorem refines_init {cells : Int → T} (h : 1 ≤ capacity) :
    (init (.fresh cells capacity debug)).Refines capacity debug [] :=
  ⟨rfl, rfl, BufferQueue.holds_fresh h, .nil⟩

/-- `push` on a list. -/
theorem Refines.push (h : s.Refines capacity debug l) (item : T) :
    ∃ l', (s.push item).Refines capacity debug l' := by
  have hfull := h.holds.full
  rw [h.sameCapacity] at hfull
  by_cases hroom : s.queue.bSize ≥ s.queue.capacity
  · have hpush : s.queue.push item = (false, s.queue) := if_pos hroom
    have hle : capacity.toNat ≤ l.length := hfull.mp (h.sameCapacity ▸ hroom)
    refine ⟨l, ?_⟩
    constructor
    · simpa only [QueueCalls.push, hpush] using h.sameCapacity
    · simpa only [QueueCalls.push, hpush] using h.sameDebug
    · simpa only [QueueCalls.push, hpush] using h.holds
    · simp only [QueueCalls.push, hpush]
      exact .snoc h.run (.full item hle)
  · have hpush : s.queue.push item = (true, s.queue.store item) := if_neg hroom
    have hlt : l.length < capacity.toNat := by
      apply Nat.lt_of_not_le
      intro hle
      exact hroom (h.sameCapacity ▸ hfull.mpr hle)
    refine ⟨l ++ [item], ?_⟩
    constructor
    · simp only [QueueCalls.push, hpush]
      exact h.sameCapacity
    · simp only [QueueCalls.push, hpush]
      exact h.sameDebug
    · simp only [QueueCalls.push, hpush]
      exact h.holds.store item hroom
    · simp only [QueueCalls.push, hpush]
      exact .snoc h.run (.push item hlt)

/-- A failing `pop` on a list. -/
theorem Refines.fail (h : s.Refines capacity debug l) (c : Nat) :
    (s.fail c).Refines capacity debug l :=
  ⟨h.sameCapacity, h.sameDebug, h.holds, .snoc h.run (.fail l)⟩

/-- A successful `pop` on a list. -/
theorem Refines.succeed (h : s.Refines capacity debug l) (c : Nat)
    (hsize : ¬ s.queue.bSize ≤ 0) : ∃ l', (s.succeed c).Refines capacity debug l' := by
  obtain ⟨l', hl, hholds⟩ := h.holds.take hsize
  refine ⟨l', h.sameCapacity, h.sameDebug, hholds, .snoc h.run ?_⟩
  rw [hl]
  exact .pop _ l'

/-- Every step. -/
theorem Refines.step {a : QueueAction T} (h : s.Refines capacity debug l)
    (hstep : s.step a = some t) : ∃ l', t.Refines capacity debug l' := by
  cases a with
  | push item =>
    simp only [QueueCalls.step, Option.ite_none_right_eq_some, Option.some.injEq] at hstep
    rw [← hstep.2]
    exact h.push item
  | clear =>
    simp only [QueueCalls.step, Option.ite_none_right_eq_some, Option.some.injEq] at hstep
    rw [← hstep.2]
    exact ⟨[], h.sameCapacity, h.sameDebug, h.holds.clear, .snoc h.run (.clear l)⟩
  | notify =>
    simp only [QueueCalls.step, Option.some.injEq] at hstep
    rw [← hstep]
    exact ⟨l, h.sameCapacity, h.sameDebug, h.holds, h.run⟩
  | pop c timed =>
    simp only [QueueCalls.step] at hstep
    split at hstep
    · simp only [Option.ite_none_right_eq_some] at hstep
      have hrest := hstep.2
      split at hrest
      · cases hrest
        exact ⟨l, h.sameCapacity, h.sameDebug, h.holds, h.run⟩
      · rename_i hsize
        cases hrest
        exact h.succeed c hsize
    · cases hstep
  | block c =>
    simp only [QueueCalls.step] at hstep
    split at hstep
    · cases hstep
      exact ⟨l, h.sameCapacity, h.sameDebug, h.holds, h.run⟩
    · cases hstep
  | wake c =>
    simp only [QueueCalls.step] at hstep
    split at hstep
    · simp only [Option.ite_none_right_eq_some, Option.some.injEq] at hstep
      rw [← hstep.2]
      unfold retest
      split
      · exact ⟨l, h.fail c⟩
      · rename_i hsize
        exact h.succeed c hsize
    · cases hstep
  | timeout c =>
    simp only [QueueCalls.step] at hstep
    split at hstep
    · simp only [Option.ite_none_right_eq_some, Option.some.injEq] at hstep
      rw [← hstep.2]
      exact ⟨l, h.fail c⟩
    · cases hstep

end QueueCalls

/-! ### What the observers read -/

namespace BufferQueue

variable {q : BufferQueue T} {l : List T}

/-- `get_size` passes its assertion and reads the number of items. -/
theorem Holds.getSize_eq (h : q.Holds l) : q.getSize = some (l.length : Int) := by
  rw [getSize, if_pos h.size, h.length]

/-- `is_full` tells whether the items fill the capacity. -/
theorem Holds.isFull_eq (h : q.Holds l) : q.isFull = decide ((l.length : Int) = q.capacity) := by
  rw [isFull, h.length]
  rfl

/-- `is_empty` tells whether there is no item. -/
theorem Holds.isEmpty_eq (h : q.Holds l) : q.isEmpty = l.isEmpty := by
  have hlen := h.length
  cases l with
  | nil =>
    rw [List.length_nil] at hlen
    simp [isEmpty, ← hlen]
  | cons item l =>
    rw [List.length_cons] at hlen
    have hne : q.bSize ≠ 0 := by omega
    simp [isEmpty, hne]

/-- `back` reads the newest item. -/
theorem Holds.back_eq (h : q.Holds l) : q.back = l.getLast? := by
  have hsize := h.size
  by_cases hzero : q.bSize = 0
  · rw [back, if_pos hzero, h.items, hzero]
    rfl
  · have hpos : 0 < q.bSize := by omega
    have hlast : q.bLast = (q.bFirst + 1 + q.bSize - 1) % q.capacity := by
      have hmod : q.bLast ≡ q.bFirst + 1 + q.bSize - 1 [ZMOD q.capacity] := by
        have hshift := h.cursors.sub_right 1
        rwa [Int.add_sub_cancel] at hshift
      rw [← show q.bLast % q.capacity = _ from hmod]
      exact (Int.emod_eq_of_lt (h.stored hpos) h.last.2).symm
    rw [back, if_neg hzero, h.items, getLast?_window_unrolled hpos, hlast]

end BufferQueue

/-- From a fresh queue on, whatever calls are made and however they interleave, the reports
are those of a bounded FIFO queue, and the observers read what that queue holds. -/
theorem buffer_queue_refines_fifo {cells : Int → T} {capacity : Int} {debug : Bool}
    {s : QueueCalls T} (hcap : 1 ≤ capacity)
    (h : Reach QueueCalls.step (.init (.fresh cells capacity debug)) s) :
    ∃ l, FifoRun capacity.toNat s.events l ∧
      s.queue.getSize = some (l.length : Int) ∧
      s.queue.isFull = decide ((l.length : Int) = capacity) ∧
      s.queue.isEmpty = l.isEmpty ∧
      s.queue.back = l.getLast? ∧
      (debug = true → s.queue.bWcnt - s.queue.bRcnt = BitVec.ofInt 64 s.queue.bSize) := by
  have hinv : ∃ l, s.Refines capacity debug l := by
    apply h.invariant
    · exact ⟨[], QueueCalls.refines_init hcap⟩
    · intro s a t hs _ hstep
      obtain ⟨l, hl⟩ := hs
      exact hl.step hstep
  obtain ⟨l, hl⟩ := hinv
  refine ⟨l, hl.run, hl.holds.getSize_eq, ?_, hl.holds.isEmpty_eq, hl.holds.back_eq, ?_⟩
  · rw [hl.holds.isFull_eq, hl.sameCapacity]
  · intro hdebug
    exact hl.holds.counted (hl.sameDebug.trans hdebug)

/-- Two items fill a queue of two cells; a third is refused, then the ring wraps around; a
`pop` waits for an item, a timed one in vain. -/
def wrapAround : List (QueueAction Nat) :=
  [.push 1, .push 2, .push 3, .pop 0 false, .push 4, .pop 1 true, .pop 2 false, .pop 3 false,
    .block 3, .push 5, .wake 3, .pop 4 true, .block 4, .timeout 4, .clear, .push 6]

/-- The observers after that run. -/
theorem fifo_after_wrap_around :
    ∃ s, run QueueCalls.step (.init (.fresh (fun _ ↦ 0) 2 true)) wrapAround = some s ∧
      ∃ l, FifoRun 2 s.events l ∧ s.queue.getSize = some (l.length : Int) ∧
        s.queue.isFull = decide ((l.length : Int) = 2) ∧ s.queue.isEmpty = l.isEmpty ∧
        s.queue.back = l.getLast? ∧
        (true = true → s.queue.bWcnt - s.queue.bRcnt = BitVec.ofInt 64 s.queue.bSize) := by
  have hrun : (run QueueCalls.step (.init (.fresh (fun _ ↦ 0) 2 true)) wrapAround).isSome := by
    decide +kernel
  obtain ⟨s, hs⟩ := Option.isSome_iff_exists.mp hrun
  exact ⟨s, hs, buffer_queue_refines_fifo (by decide) (reach_of_run hs)⟩

end ConcurrentServer.Log
