import ConcurrentServer.Log.BufferQueue
import Mathlib.Data.List.Infix
import Mathlib.Data.List.Perm.Subperm

/-!
# The asynchronous logger

`src/log/log.h:63–78`, `src/log/log.cpp:45–73, 205–211`, for a logger that was initialised with
a queue. Calls of `write_log` push their formatted record until the queue takes it or the stop
flag is set, the writer thread pops records and writes them, and the destructor stops that
thread and waits for its end. A step is one statement; what `push` and `pop` do under `b_mutex`
is one statement, except that the writer keeps the mutex from finding the queue empty until it
blocks. A wait may end at any time. Nothing runs after the destructor has deleted the queue.
-/

namespace ConcurrentServer.Log
open ConcurrentServer.Base

variable {T : Type}

/-- Where the writer thread is in `async_write`. -/
inductive WriterPc (T : Type)
  /-- Before `pop(single_line)`. -/
  | pop
  /-- In `pop`, with `b_mutex` held and the queue found empty; the wait comes next. -/
  | empty
  /-- In the wait of `pop`. -/
  | waiting (notified : Bool)
  /-- `pop` returned `true`; the test of `is_thread_stop` comes next. -/
  | test (singleLine : T)
  /-- Before `fputs`. -/
  | fputs (singleLine : T)
  /-- The loop has ended. -/
  | done
  deriving DecidableEq, Repr

namespace WriterPc

/-- `notify_all` reaches a writer inside the wait. -/
def notify : WriterPc T → WriterPc T
  | .waiting _ => .waiting true
  | pc => pc

/-- The writer holds `b_mutex` from this statement to the next. -/
def holdsMutex : WriterPc T → Bool
  | .empty => true
  | _ => false

/-- The record that was popped and not yet tested for. -/
def untested : WriterPc T → List T
  | .test singleLine => [singleLine]
  | _ => []

/-- The record that is about to be written. -/
def tested : WriterPc T → List T
  | .fputs singleLine => [singleLine]
  | _ => []

end WriterPc

/-- Where a call of `write_log` is, from its push loop on. -/
inductive WriteLogPc (T : Type)
  /-- Not called yet. -/
  | idle
  /-- Before `push(log_str)`. -/
  | push (logStr : T)
  /-- `push` returned `false`; the test of `is_thread_stop` comes next. -/
  | test (logStr : T)
  /-- The loop has ended; `pushed` is what the last `push` returned. -/
  | returned (pushed : Bool)
  deriving DecidableEq, Repr

/-- Where the destructor is. -/
inductive DestructorPc
  /-- Not called yet. -/
  | idle
  /-- Before `is_thread_stop = true`. -/
  | stop
  /-- Before `notify()`. -/
  | notify
  /-- In `join()`. -/
  | join
  /-- It has returned. -/
  | returned
  deriving DecidableEq, Repr

/-- The logger and the threads at work on it. `lFp` is what was written to the stream. -/
structure AsyncLog (T : Type) where
  lBufferQueue : BufferQueue T
  isThreadStop : Bool
  lFp : List T
  writer : WriterPc T
  calls : Nat → WriteLogPc T
  destructor : DestructorPc
  /-- The records whose `push` returned `true`, in that order. -/
  pushed : List T
  /-- Those of them from before the destructor began. -/
  pushedBefore : List T

/-- What can happen next. -/
inductive LogAction (T : Type)
  /-- Call `c` reaches its push loop with its record. -/
  | log (c : Nat) (logStr : T)
  /-- The next statement of call `c`. -/
  | call (c : Nat)
  /-- The next statement of the writer, or the end of its wait. -/
  | writer
  /-- The destructor begins. -/
  | destroy
  /-- The next statement of the destructor. -/
  | destructor
  deriving DecidableEq, Repr

namespace AsyncLog

/-- A logger whose writer thread has just been started; `src/log/log.cpp:98–103`. -/
def init (cells : Int → T) (bufferQueueSize : Int) : AsyncLog T :=
  ⟨.fresh cells bufferQueueSize false, false, [], .pop, fun _ ↦ .idle, .idle, [], []⟩

/-- Call `c` moves on. -/
def setCall (s : AsyncLog T) (c : Nat) (pc : WriteLogPc T) : AsyncLog T :=
  { s with calls := Function.update s.calls c pc }

/-- `push` of call `c`; a refused one notifies the writer, too; `src/log/log_queue.h:126–146`. -/
def pushStmt (s : AsyncLog T) (c : Nat) (logStr : T) : AsyncLog T :=
  if (s.lBufferQueue.push logStr).1 then
    { s.setCall c (.returned true) with
      lBufferQueue := (s.lBufferQueue.push logStr).2
      writer := s.writer.notify
      pushed := s.pushed ++ [logStr] }
  else { s.setCall c (.test logStr) with writer := s.writer.notify }

/-- The push loop of `write_log`; `src/log/log.cpp:205–210`. -/
def callStep (s : AsyncLog T) (c : Nat) : Option (AsyncLog T) :=
  match s.calls c with
  | .push logStr => if s.writer.holdsMutex then none else some (s.pushStmt c logStr)
  | .test logStr =>
    some (s.setCall c (if s.isThreadStop then .returned false else .push logStr))
  | .idle | .returned _ => none

/-- The writer takes the oldest record. -/
def takeStmt (s : AsyncLog T) : AsyncLog T :=
  { s with
    lBufferQueue := s.lBufferQueue.take.2
    writer := .test s.lBufferQueue.take.1 }

/-- `async_write`; `src/log/log.h:73–77`. A `pop` that returns `false` ends the loop. -/
def writerStep (s : AsyncLog T) : Option (AsyncLog T) :=
  match s.writer with
  | .pop =>
    if s.lBufferQueue.bSize ≤ 0 then some { s with writer := .empty } else some s.takeStmt
  | .empty => some { s with writer := .waiting false }
  | .waiting _ =>
    if s.lBufferQueue.bSize ≤ 0 then some { s with writer := .done } else some s.takeStmt
  | .test singleLine =>
    some { s with writer := if s.isThreadStop then .done else .fputs singleLine }
  | .fputs singleLine => some { s with writer := .pop, lFp := s.lFp ++ [singleLine] }
  | .done => none

/-- `Logger::~Logger`; `src/log/log.cpp:45–73`. -/
def destructorStep (s : AsyncLog T) : Option (AsyncLog T) :=
  match s.destructor with
  | .stop => some { s with destructor := .notify, isThreadStop := true }
  | .notify => some { s with destructor := .join, writer := s.writer.notify }
  | .join =>
    match s.writer with
    | .done => some { s with destructor := .returned }
    | _ => none
  | .idle | .returned => none

/-- The step function. -/
def step (s : AsyncLog T) (a : LogAction T) : Option (AsyncLog T) :=
  if s.destructor = .returned then none
  else match a with
    | .log c logStr =>
      match s.calls c with
      | .idle => some (s.setCall c (.push logStr))
      | _ => none
    | .call c => s.callStep c
    | .writer => s.writerStep
    | .destroy =>
      match s.destructor with
      | .idle => some { s with destructor := .stop, pushedBefore := s.pushed }
      | _ => none
    | .destructor => s.destructorStep

/-- When the destructor has returned, the records pushed before it began are written. -/
def NoRecordLost (s : AsyncLog T) : Prop :=
  s.destructor = .returned → s.pushedBefore.Subperm s.lFp

/-- The destructor sets the stop flag only when every record that the writer has still to get
past its test was pushed after the destructor began. -/
def StopsDrained (s : AsyncLog T) : LogAction T → Prop
  | .destructor => s.destructor = .stop →
    s.pushedBefore.length + s.writer.untested.length + s.lBufferQueue.bSize ≤ s.pushed.length
  | _ => True

instance : ∀ (s : AsyncLog T) (a : LogAction T), Decidable (s.StopsDrained a)
  | s, .destructor => inferInstanceAs (Decidable (s.destructor = .stop →
      s.pushedBefore.length + s.writer.untested.length + s.lBufferQueue.bSize ≤ s.pushed.length))
  | _, .log _ _ | _, .call _ | _, .writer | _, .destroy => inferInstanceAs (Decidable True)

/-- Records go through the queue in order, and once the flag is set those from before the
destructor are written or about to be. -/
structure Kept (s : AsyncLog T) (l : List T) : Prop where
  holds : s.lBufferQueue.Holds l
  inOrder : s.isThreadStop = false →
    s.pushed = s.lFp ++ s.writer.tested ++ (s.writer.untested ++ l)
  before : s.pushedBefore <+: s.pushed
  stopped : s.isThreadStop = true → s.pushedBefore <+: s.lFp ++ s.writer.tested
  running : s.isThreadStop = false → s.destructor = .idle ∨ s.destructor = .stop
  ended : s.destructor = .returned → s.writer = .done
  begun : s.isThreadStop = true → s.destructor ≠ .idle ∧ s.destructor ≠ .stop

variable {s t : AsyncLog T} {l : List T} {a : LogAction T}

@[simp] theorem tested_notify (pc : WriterPc T) : pc.notify.tested = pc.tested := by
  cases pc <;> rfl

@[simp] theorem untested_notify (pc : WriterPc T) : pc.notify.untested = pc.untested := by
  cases pc <;> rfl

theorem notify_eq_done {pc : WriterPc T} (h : pc = .done) : pc.notify = .done := by
  rw [h]
  rfl

/-- A fresh logger. -/
theorem kept_init {cells : Int → T} {bufferQueueSize : Int} (h : 1 ≤ bufferQueueSize) :
    (init cells bufferQueueSize).Kept [] := by
  constructor
  · exact BufferQueue.holds_fresh h
  · intro _
    rfl
  · exact List.prefix_rfl
  · intro hstop
    cases hstop
  · intro _
    exact Or.inl rfl
  · intro hret
    cases hret
  · intro hstop
    cases hstop

/-- Only the place of a call changes. -/
theorem Kept.setCall (h : s.Kept l) (c : Nat) (pc : WriteLogPc T) : (s.setCall c pc).Kept l :=
  ⟨h.holds, h.inOrder, h.before, h.stopped, h.running, h.ended, h.begun⟩

/-- A notification changes no record's place. -/
theorem Kept.notify (h : s.Kept l) : { s with writer := s.writer.notify }.Kept l := by
  constructor
  · exact h.holds
  · intro hstop
    show s.pushed = s.lFp ++ s.writer.notify.tested ++ (s.writer.notify.untested ++ l)
    rw [tested_notify, untested_notify]
    exact h.inOrder hstop
  · exact h.before
  · intro hstop
    show s.pushedBefore <+: s.lFp ++ s.writer.notify.tested
    rw [tested_notify]
    exact h.stopped hstop
  · exact h.running
  · intro hret
    exact notify_eq_done (h.ended hret)
  · exact h.begun

/-- An accepted record goes to the end of the queue. -/
theorem Kept.pushStmt (h : s.Kept l) (c : Nat) (logStr : T) :
    ∃ l', (s.pushStmt c logStr).Kept l' := by
  unfold AsyncLog.pushStmt BufferQueue.push
  by_cases hroom : s.lBufferQueue.bSize ≥ s.lBufferQueue.capacity
  · rw [if_pos hroom]
    exact ⟨l, (h.setCall c (.test logStr)).notify⟩
  · rw [if_neg hroom, if_pos rfl]
    have hn := (h.setCall c (.returned true)).notify
    refine ⟨l ++ [logStr], h.holds.store logStr hroom, ?_, ?_, hn.stopped, hn.running, hn.ended,
      hn.begun⟩
    · intro hstop
      show s.pushed ++ [logStr] =
        s.lFp ++ s.writer.notify.tested ++ (s.writer.notify.untested ++ (l ++ [logStr]))
      rw [tested_notify, untested_notify, h.inOrder hstop]
      simp only [List.append_assoc]
    · exact h.before.trans (List.prefix_append _ _)

/-- The push loop. -/
theorem Kept.callStep {c : Nat} (h : s.Kept l) (hstep : s.callStep c = some t) :
    ∃ l', t.Kept l' := by
  unfold AsyncLog.callStep at hstep
  split at hstep
  · split at hstep
    · cases hstep
    · cases hstep
      exact h.pushStmt c _
  · cases hstep
    exact ⟨l, h.setCall c _⟩
  · cases hstep
  · cases hstep

/-- The writer moves without a record in hand. -/
theorem Kept.setWriter {pc : WriterPc T} (h : s.Kept l) (hand : s.writer.tested = [])
    (hand' : pc.tested = []) (rest : s.isThreadStop = false → pc.untested = s.writer.untested)
    (alive : s.writer ≠ .done) : { s with writer := pc }.Kept l := by
  constructor
  · exact h.holds
  · intro hstop
    show s.pushed = s.lFp ++ pc.tested ++ (pc.untested ++ l)
    rw [hand', rest hstop, ← hand]
    exact h.inOrder hstop
  · exact h.before
  · intro hstop
    show s.pushedBefore <+: s.lFp ++ pc.tested
    rw [hand', ← hand]
    exact h.stopped hstop
  · exact h.running
  · intro hret
    exact absurd (h.ended hret) alive
  · exact h.begun

/-- The writer takes the oldest record of the queue. -/
theorem Kept.takeStmt (h : s.Kept l) (hsize : ¬ s.lBufferQueue.bSize ≤ 0)
    (hand : s.writer.tested = []) (free : s.writer.untested = []) (alive : s.writer ≠ .done) :
    ∃ l', s.takeStmt.Kept l' := by
  obtain ⟨l', hl, hholds⟩ := h.holds.take hsize
  refine ⟨l', hholds, ?_, h.before, ?_, h.running, ?_, h.begun⟩
  · intro hstop
    show s.pushed = s.lFp ++ [] ++ ([s.lBufferQueue.take.1] ++ l')
    rw [h.inOrder hstop, hand, free, hl]
    rfl
  · intro hstop
    show s.pushedBefore <+: s.lFp ++ []
    rw [← hand]
    exact h.stopped hstop
  · intro hret
    exact absurd (h.ended hret) alive

/-- The writer takes the oldest record, if there is one. -/
theorem Kept.tryTake {pc : WriterPc T} (h : s.Kept l) (hand : s.writer.tested = [])
    (free : s.writer.untested = []) (alive : s.writer ≠ .done) (hand' : pc.tested = [])
    (free' : pc.untested = [])
    (hstep : (if s.lBufferQueue.bSize ≤ 0 then some { s with writer := pc }
      else some s.takeStmt) = some t) : ∃ l', t.Kept l' := by
  split at hstep
  · cases hstep
    exact ⟨l, h.setWriter hand hand' (fun _ ↦ free'.trans free.symm) alive⟩
  · rename_i hsize
    cases hstep
    exact h.takeStmt hsize hand free alive

/-- The writer's loop. -/
theorem Kept.writerStep (h : s.Kept l) (hstep : s.writerStep = some t) : ∃ l', t.Kept l' := by
  unfold AsyncLog.writerStep at hstep
  split at hstep
  · rename_i hpc
    exact h.tryTake (by rw [hpc]; rfl) (by rw [hpc]; rfl) (by simp [hpc]) rfl rfl hstep
  · rename_i hpc
    cases hstep
    exact ⟨l, h.setWriter (by rw [hpc]; rfl) rfl (fun _ ↦ by rw [hpc]; rfl) (by simp [hpc])⟩
  · rename_i hpc
    exact h.tryTake (by rw [hpc]; rfl) (by rw [hpc]; rfl) (by simp [hpc]) rfl rfl hstep
  · rename_i singleLine hpc
    cases hstep
    by_cases hstop : s.isThreadStop = true
    · -- the record is dropped: it is none of those from before the destructor
      rw [if_pos hstop]
      refine ⟨l, h.setWriter (by rw [hpc]; rfl) rfl (fun hrun ↦ ?_) (by simp [hpc])⟩
      rw [hstop] at hrun
      cases hrun
    · rw [if_neg hstop]
      have hrun := Bool.eq_false_of_not_eq_true hstop
      refine ⟨l, h.holds, ?_, h.before, ?_, h.running, ?_, h.begun⟩
      · intro _
        show s.pushed = s.lFp ++ [singleLine] ++ ([] ++ l)
        rw [h.inOrder hrun, hpc]
        show s.lFp ++ [] ++ ([singleLine] ++ l) = _
        simp
      · intro hstop'
        exact absurd hstop' hstop
      · intro hret
        have hdone := h.ended hret
        rw [hpc] at hdone
        cases hdone
  · rename_i singleLine hpc
    cases hstep
    have htested : s.writer.tested = [singleLine] := by rw [hpc]; rfl
    refine ⟨l, h.holds, ?_, h.before, ?_, h.running, ?_, h.begun⟩
    · intro hrun
      show s.pushed = s.lFp ++ [singleLine] ++ [] ++ ([] ++ l)
      rw [h.inOrder hrun, htested, hpc]
      simp [WriterPc.untested]
    · intro hstop
      show s.pushedBefore <+: s.lFp ++ [singleLine] ++ []
      rw [List.append_nil, ← htested]
      exact h.stopped hstop
    · intro hret
      have hdone := h.ended hret
      rw [hpc] at hdone
      cases hdone
  · cases hstep

/-- The flag is set with nothing untested from before the destructor. -/
theorem Kept.stop (h : s.Kept l) (at_ : s.destructor = .stop)
    (drained : s.pushedBefore.length + s.writer.untested.length + s.lBufferQueue.bSize ≤
      s.pushed.length) :
    { s with destructor := .notify, isThreadStop := true }.Kept l := by
  have hrun : s.isThreadStop = false := by
    apply Bool.eq_false_of_not_eq_true
    intro hstop
    exact (h.begun hstop).2 at_
  have horder := h.inOrder hrun
  constructor
  · exact h.holds
  · intro hstop
    cases hstop
  · exact h.before
  · intro _
    -- both are prefixes of what was pushed, and this one is the shorter
    apply List.prefix_of_prefix_length_le h.before
    · rw [horder]
      exact List.prefix_append _ _
    · have hlen := congrArg List.length horder
      have hsize := h.holds.length
      rw [List.length_append, @List.length_append _ s.writer.untested l] at hlen
      show s.pushedBefore.length ≤ (s.lFp ++ s.writer.tested).length
      omega
  · intro hstop
    cases hstop
  · intro hret
    cases hret
  · intro _
    exact ⟨by simp, by simp⟩

/-- The destructor. -/
theorem Kept.destructorStep (h : s.Kept l) (hok : s.StopsDrained .destructor)
    (hstep : s.destructorStep = some t) : ∃ l', t.Kept l' := by
  unfold AsyncLog.destructorStep at hstep
  split at hstep
  · rename_i hpc
    cases hstep
    exact ⟨l, h.stop hpc (hok hpc)⟩
  · rename_i hpc
    cases hstep
    have hn := h.notify
    refine ⟨l, hn.holds, hn.inOrder, hn.before, hn.stopped, ?_, ?_, ?_⟩
    · intro hrun
      have hold := h.running hrun
      rw [hpc] at hold
      simp at hold
    · intro hret
      cases hret
    · intro _
      exact ⟨by simp, by simp⟩
  · rename_i hpc
    split at hstep
    · rename_i hdone
      cases hstep
      refine ⟨l, h.holds, h.inOrder, h.before, h.stopped, ?_, fun _ ↦ hdone, ?_⟩
      · intro hrun
        have hold := h.running hrun
        rw [hpc] at hold
        simp at hold
      · intro _
        exact ⟨by simp, by simp⟩
    · cases hstep
  · cases hstep
  · cases hstep

/-- An admitted step. -/
theorem Kept.step (h : s.Kept l) (hok : s.StopsDrained a) (hstep : s.step a = some t) :
    ∃ l', t.Kept l' := by
  unfold AsyncLog.step at hstep
  split at hstep
  · cases hstep
  cases a with
  | log c logStr =>
    simp only at hstep
    split at hstep
    · cases hstep
      exact ⟨l, h.setCall c _⟩
    · cases hstep
  | call c => exact h.callStep hstep
  | writer => exact h.writerStep hstep
  | destroy =>
    simp only at hstep
    split at hstep
    · rename_i hpc
      cases hstep
      refine ⟨l, h.holds, h.inOrder, List.prefix_rfl, ?_, fun _ ↦ Or.inr rfl, ?_, ?_⟩
      · intro hstop
        exact absurd hpc (h.begun hstop).1
      · intro hret
        cases hret
      · intro hstop
        exact absurd hpc (h.begun hstop).1
    · cases hstep
  | destructor => exact h.destructorStep hok hstep

end AsyncLog

/-- If the destructor sets the flag only with every record from before it past the writer's
test, none of them is lost. -/
theorem no_record_lost {cells : Int → T} {bufferQueueSize : Int} {s : AsyncLog T}
    (hsize : 1 ≤ bufferQueueSize)
    (h : ReachBy AsyncLog.step AsyncLog.StopsDrained (.init cells bufferQueueSize) s) :
    s.NoRecordLost := by
  have hinv : ∃ l, s.Kept l := by
    apply h.invariant
    · exact ⟨[], AsyncLog.kept_init hsize⟩
    · intro s a t hs hok hstep
      obtain ⟨l, hl⟩ := hs
      exact hl.step hok hstep
  obtain ⟨l, hl⟩ := hinv
  intro hret
  have hstop : s.isThreadStop = true := by
    by_contra hrun
    have hold := hl.running (Bool.eq_false_of_not_eq_true hrun)
    rw [hret] at hold
    simp at hold
  have hwritten := hl.stopped hstop
  rw [hl.ended hret] at hwritten
  apply List.Sublist.subperm
  apply List.IsPrefix.sublist
  simpa [WriterPc.tested] using hwritten

/-- A record is logged and written, the writer waits, and the destructor stops it. -/
def logAndStop : List (LogAction Nat) :=
  [.log 0 7, .call 0, .writer, .writer, .writer, .writer, .writer, .destroy, .destructor,
    .destructor, .writer, .destructor]

/-- Nothing is lost when the writer waits on an empty queue. -/
theorem record_written_before_stop :
    ∃ s, run AsyncLog.step (.init (fun _ ↦ 0) 1) logAndStop = some s ∧ s.NoRecordLost := by
  have hrun : (run AsyncLog.step (.init (fun _ ↦ 0) 1) logAndStop).isSome := by decide +kernel
  obtain ⟨s, hs⟩ := Option.isSome_iff_exists.mp hrun
  exact ⟨s, hs, no_record_lost (by decide) (reachBy_of_run hs (by decide +kernel))⟩

/-- The destructor begins right after a record was pushed. -/
def stopAfterPush : List (LogAction Nat) :=
  [.log 0 7, .call 0, .destroy, .destructor, .destructor, .writer, .writer, .destructor]

/-- A record that was pushed before the destructor began is popped and dropped. -/
theorem pushed_record_is_lost :
    ¬ ∀ (cells : Int → Nat) (bufferQueueSize : Int) (s : AsyncLog Nat), 1 ≤ bufferQueueSize →
      Reach AsyncLog.step (.init cells bufferQueueSize) s → s.NoRecordLost := by
  intro h
  have hrun : (run AsyncLog.step (.init (fun _ ↦ 0) 1) stopAfterPush).isSome := by decide +kernel
  have hlost : ∀ t ∈ run AsyncLog.step (.init (fun _ ↦ 0) 1) stopAfterPush,
      t.destructor = .returned ∧ t.pushedBefore = [7] ∧ t.lFp = [] := by decide +kernel
  obtain ⟨s, hs⟩ := Option.isSome_iff_exists.mp hrun
  obtain ⟨hret, hbefore, hempty⟩ := hlost s hs
  have hsub := h (fun _ ↦ 0) 1 s (by decide) (reach_of_run hs) hret
  rw [hbefore, hempty] at hsub
  exact absurd hsub.length_le (by decide)

end ConcurrentServer.Log
