import ConcurrentServer.Base.Threads
import ConcurrentServer.Log.WriterStep

/-!
# The life of the writer thread

`src/log/log.h:63–78`, `src/log/log.cpp:45–73`, `src/log/log_queue.h:126–175`. The loop ends when
`pop` fails or the stop flag is set, and `pop` fails whenever its wait ends on an empty queue. The
destructor sets the flag and notifies without `b_mutex`: a writer that is not in its wait yet and
finds the queue empty waits for ever.
-/

namespace ConcurrentServer.Log
open ConcurrentServer.Base

variable {T : Type}

/-- The call has a `push` before it. -/
def WriteLogPc.toPush : WriteLogPc T → Bool
  | .push _ => true
  | .idle | .test _ | .returned _ => false

/-- The writer goes to its wait from here without another test of the flag, on a queue of this
size. -/
def WriterPc.headsForWait : WriterPc T → Int → Bool
  | .pop, bSize | .fputs _, bSize => decide (bSize ≤ 0)
  | .empty, _ => true
  | .waiting _, _ | .test _, _ | .done, _ => false

/-- Blocked in the wait of `pop`, and no notification has been delivered. -/
def WriterPc.asleep : WriterPc T → Bool
  | .waiting false => true
  | .pop | .empty | .waiting true | .test _ | .fputs _ | .done => false

/-- In `pop` and past its test of the size. -/
def WriterPc.foundEmpty : WriterPc T → Bool
  | .empty | .waiting false => true
  | .pop | .waiting true | .test _ | .fputs _ | .done => false

/-- The stop flag has been set. -/
def DestructorPc.stopped : DestructorPc → Bool
  | .notify | .join | .returned => true
  | .idle | .stop => false

/-- The writer has been notified. -/
def DestructorPc.notified : DestructorPc → Bool
  | .join | .returned => true
  | .idle | .stop | .notify => false

namespace AsyncLog

variable {s t : AsyncLog T} {l : List T} {a : LogAction T}

@[simp] theorem headsForWait_notify (pc : WriterPc T) (bSize : Int) :
    pc.notify.headsForWait bSize = pc.headsForWait bSize := by
  cases pc <;> rfl

/-- A notified writer is not asleep. -/
theorem notify_ne_asleep (pc : WriterPc T) : pc.notify ≠ .waiting false := by
  cases pc <;> simp [WriterPc.notify]

/-! ### The flag -/

/-- The flag is set once the destructor has done so, and only then. -/
def FlagSet (s : AsyncLog T) : Prop := s.isThreadStop = s.destructor.stopped

/-- Every step. -/
theorem FlagSet.step (h : s.FlagSet) (hstep : Step s a t) : t.FlagSet := by
  unfold FlagSet at h
  cases hstep with
  | log | pushed | refused | retry | empty | block | take | fail | drop | pass | fputs => exact h
  | destroy at_ =>
    rw [at_] at h
    exact h
  | stop at_ => rfl
  | notify at_ =>
    rw [at_] at h
    exact h
  | join at_ ended =>
    rw [at_] at h
    exact h

/-- In every reached state. -/
theorem flagSet_of_reach {cells : Int → T} {bufferQueueSize : Int}
    (h : Reach step (init cells bufferQueueSize) s) : s.FlagSet := by
  apply h.invariant
  · rfl
  · intro s a t hs _ hstep
    exact hs.step (step_inversion hstep)

/-! ### Stopping the writer -/

/-- The destructor waits for a writer that is blocked in `pop`, with no notification delivered to
it or to come from a call. -/
def Hangs (s : AsyncLog T) : Prop :=
  s.destructor = .join ∧ s.writer = .waiting false ∧ ∀ c, (s.calls c).toPush = false

/-- When the destructor notifies it, the writer is not on its way to its wait, unless a call is
still to push a record. -/
def NotifiesInTime (s : AsyncLog T) : LogAction T → Prop
  | .destructor => s.destructor = .notify →
    s.writer.headsForWait s.lBufferQueue.bSize = true → ∃ c, (s.calls c).toPush = true
  | _ => True

/-- When the destructor notifies it, the writer is not on its way to its wait. -/
def NotifiesAsleep (s : AsyncLog T) : LogAction T → Prop
  | .destructor => s.destructor = .notify → s.writer.headsForWait s.lBufferQueue.bSize = false
  | _ => True

instance : ∀ (s : AsyncLog T) (a : LogAction T), Decidable (s.NotifiesAsleep a)
  | s, .destructor => inferInstanceAs (Decidable (s.destructor = .notify →
      s.writer.headsForWait s.lBufferQueue.bSize = false))
  | _, .log _ _ | _, .call _ | _, .writer | _, .destroy => inferInstanceAs (Decidable True)

/-- What is not on its way to the wait needs no call. -/
theorem notifiesInTime_of_asleep (s : AsyncLog T) (a : LogAction T) (h : s.NotifiesAsleep a) :
    s.NotifiesInTime a := by
  cases a with
  | destructor =>
    intro hnotify hheads
    rw [h hnotify] at hheads
    cases hheads
  | _ => trivial

/-- A writer on its way to its wait, or asleep in it, has a call to wake it. -/
structure Wakeable (s : AsyncLog T) : Prop where
  heads : s.writer.headsForWait s.lBufferQueue.bSize = true → ∃ c, (s.calls c).toPush = true
  asleep : s.writer = .waiting false → ∃ c, (s.calls c).toPush = true

/-- A notification alone. -/
theorem Wakeable.notify (h : s.Wakeable) (writer : t.writer = s.writer.notify)
    (queue : t.lBufferQueue = s.lBufferQueue) (calls : t.calls = s.calls) : t.Wakeable := by
  constructor
  · rw [writer, queue, calls, headsForWait_notify]
    exact h.heads
  · rw [writer]
    intro hasleep
    exact absurd hasleep (notify_ne_asleep s.writer)

/-- A call that has no `push` before it, or still has one. -/
theorem Wakeable.setCall (h : s.Wakeable) {c : Nat} {pc : WriteLogPc T}
    (keeps : (s.calls c).toPush = true → pc.toPush = true) : (s.setCall c pc).Wakeable := by
  constructor
  · intro hheads
    exact exists_update_of_keeps (h.heads hheads) keeps
  · intro hasleep
    exact exists_update_of_keeps (h.asleep hasleep) keeps

/-- A writer that is elsewhere, or on its way past a queue that is not empty. -/
theorem wakeable_of_awake (heads : t.writer.headsForWait t.lBufferQueue.bSize = false)
    (asleep : t.writer ≠ .waiting false) : t.Wakeable := by
  constructor
  · intro hheads
    rw [heads] at hheads
    cases hheads
  · intro hasleep
    exact absurd hasleep asleep

/-- A writer that can see a record does not go to its wait. -/
theorem headsForWait_of_pos {pc : WriterPc T} (free : pc.holdsMutex = false) {bSize : Int}
    (pos : 0 < bSize) : pc.headsForWait bSize = false := by
  cases pc with
  | pop => exact decide_eq_false (by omega)
  | fputs singleLine => exact decide_eq_false (by omega)
  | empty => cases free
  | _ => rfl

@[simp] theorem holdsMutex_notify (pc : WriterPc T) : pc.notify.holdsMutex = pc.holdsMutex := by
  cases pc <;> rfl

/-- Every step with the flag set. -/
theorem Wakeable.step (h : s.Wakeable) (hl : s.Ordered l) (hstop : s.isThreadStop = true)
    (hstep : Step s a t) : t.Wakeable := by
  have hcap := hl.holds.capacity
  have hsize := hl.holds.size
  cases hstep with
  | log c logStr at_ => exact h.setCall fun _ ↦ rfl
  | pushed c logStr at_ free room =>
    apply wakeable_of_awake
    · apply headsForWait_of_pos
      · rw [← free]
        exact holdsMutex_notify s.writer
      · show 0 < s.lBufferQueue.bSize + 1
        omega
    · exact notify_ne_asleep s.writer
  | refused c logStr at_ free full =>
    apply wakeable_of_awake
    · apply headsForWait_of_pos
      · rw [← free]
        exact holdsMutex_notify s.writer
      · show 0 < s.lBufferQueue.bSize
        omega
    · exact notify_ne_asleep s.writer
  | retry c logStr at_ =>
    apply h.setCall
    rw [at_]
    intro hpush
    cases hpush
  | empty at_ empty =>
    constructor
    · intro _
      apply h.heads
      rw [at_]
      exact decide_eq_true empty
    · intro hasleep
      cases hasleep
  | block at_ =>
    constructor
    · intro hheads
      cases hheads
    · intro _
      apply h.heads
      rw [at_]
      rfl
  | take at_ some_ => exact wakeable_of_awake rfl (by simp [takeStmt])
  | fail notified at_ empty => exact wakeable_of_awake rfl (by simp)
  | drop singleLine at_ stop => exact wakeable_of_awake rfl (by simp)
  | pass singleLine at_ run =>
    rw [hstop] at run
    cases run
  | fputs singleLine at_ =>
    constructor
    · intro hheads
      apply h.heads
      rw [at_]
      exact hheads
    · intro hasleep
      cases hasleep
  | destroy at_ => exact ⟨h.heads, h.asleep⟩
  | stop at_ => exact ⟨h.heads, h.asleep⟩
  | notify at_ => exact h.notify rfl rfl rfl
  | join at_ ended => exact ⟨h.heads, h.asleep⟩

/-- Only the notification of the destructor gets it past it. -/
theorem notify_of_notified (hstep : Step s a t) (before : s.destructor.notified = false)
    (after : t.destructor.notified = true) :
    a = .destructor ∧ s.destructor = .notify ∧
      t = { s with destructor := .join, writer := s.writer.notify } := by
  cases hstep with
  | log | pushed | refused | retry | empty | block | take | fail | drop | pass | fputs =>
    have hsame : s.destructor.notified = true := after
    rw [before] at hsame
    cases hsame
  | destroy at_ | stop at_ => cases after
  | notify at_ => exact ⟨rfl, at_, rfl⟩
  | join at_ ended =>
    rw [at_] at before
    cases before

/-- The notification, when it is in time. -/
theorem wakeable_of_notify (hok : s.NotifiesInTime .destructor) (at_ : s.destructor = .notify) :
    { s with destructor := .join, writer := s.writer.notify }.Wakeable := by
  constructor
  · show s.writer.notify.headsForWait s.lBufferQueue.bSize = true → _
    rw [headsForWait_notify]
    exact hok at_
  · intro hasleep
    exact absurd hasleep (notify_ne_asleep s.writer)

/-- After a notification in time, in every reached state. -/
theorem wakeable_of_reach {cells : Int → T} {bufferQueueSize : Int} (hsize : 1 ≤ bufferQueueSize)
    (h : ReachBy step NotifiesInTime (init cells bufferQueueSize) s) :
    s.destructor.notified = true → s.Wakeable := by
  apply h.after (E := fun s ↦ s.destructor.notified = true) (P := Wakeable)
  · intro hnotified
    cases hnotified
  · intro s a t hs hbefore hok hstep hafter
    obtain ⟨rfl, at_, rfl⟩ :=
      notify_of_notified (step_inversion hstep) (Bool.eq_false_of_not_eq_true hbefore) hafter
    exact wakeable_of_notify hok at_
  · intro s a t hs hafter hwake hstep
    obtain ⟨l, hl⟩ := ordered_of_reach hsize hs.reach
    have hstop : s.isThreadStop = true := by
      rw [flagSet_of_reach hs.reach]
      cases hpc : s.destructor <;> rw [hpc] at hafter <;> first | rfl | cases hafter
    exact hwake.step hl hstop (step_inversion hstep)

end AsyncLog

/-- If the destructor notifies no writer that is on its way to its wait, it never waits for a
writer that nobody wakes. -/
theorem logger_stop_never_hangs {cells : Int → T} {bufferQueueSize : Int} {s : AsyncLog T}
    (hsize : 1 ≤ bufferQueueSize)
    (h : ReachBy AsyncLog.step AsyncLog.NotifiesInTime (.init cells bufferQueueSize) s) :
    ¬ s.Hangs := by
  rintro ⟨hjoin, hasleep, hnone⟩
  have hwake := AsyncLog.wakeable_of_reach hsize h (by rw [hjoin]; rfl)
  obtain ⟨c, hc⟩ := hwake.asleep hasleep
  rw [hnone c] at hc
  cases hc

/-- The writer sleeps on the empty queue when the logger is destroyed. -/
def stopAsleep : List (LogAction Nat) := [.writer, .writer, .destroy, .destructor, .destructor]

/-- It is woken. -/
theorem sleeping_writer_is_woken :
    ∃ s, run AsyncLog.step (.init (fun _ ↦ 0) 1) stopAsleep = some s ∧ ¬ s.Hangs := by
  have hrun : (run AsyncLog.step (.init (fun _ ↦ 0) 1) stopAsleep).isSome := by decide +kernel
  obtain ⟨s, hs⟩ := Option.isSome_iff_exists.mp hrun
  have hok : Admits AsyncLog.step AsyncLog.NotifiesAsleep (.init (fun _ ↦ 0) 1) stopAsleep := by
    decide +kernel
  exact ⟨s, hs, logger_stop_never_hangs (by decide)
    (reachBy_of_run hs (hok.weaken AsyncLog.notifiesInTime_of_asleep))⟩

/-- The destructor sets the flag and notifies before the writer, which has nothing to write,
reaches its wait. -/
def stopBeforeWait : List (LogAction Nat) :=
  [.destroy, .destructor, .destructor, .writer, .writer]

/-- The writer falls asleep, and the destructor waits for it. -/
theorem notification_comes_before_pop :
    ¬ ∀ (cells : Int → Nat) (bufferQueueSize : Int) (s : AsyncLog Nat), 1 ≤ bufferQueueSize →
      Reach AsyncLog.step (.init cells bufferQueueSize) s → ¬ s.Hangs := by
  intro h
  have hrun : (run AsyncLog.step (.init (fun _ ↦ 0) 1) stopBeforeWait).isSome := by
    decide +kernel
  have hends : ∀ t ∈ run AsyncLog.step (.init (fun _ ↦ 0) 1) stopBeforeWait,
      t.destructor = .join ∧ t.writer = .waiting false := by
    decide +kernel
  have hcalls : (run AsyncLog.step (.init (fun _ ↦ 0) 1) stopBeforeWait).map AsyncLog.calls =
      some fun _ ↦ .idle := rfl
  obtain ⟨s, hs⟩ := Option.isSome_iff_exists.mp hrun
  obtain ⟨hjoin, hasleep⟩ := hends s hs
  rw [hs] at hcalls
  apply h (fun _ ↦ 0) 1 s (by decide) (reach_of_run hs)
  refine ⟨hjoin, hasleep, fun c ↦ ?_⟩
  rw [show s.calls = fun _ ↦ .idle from Option.some.inj hcalls]
  rfl

/-! ### Spurious wake-ups -/

namespace AsyncLog

variable {s t : AsyncLog T} {l : List T} {a : LogAction T}

/-- The loop of `async_write` has ended only if the flag has been set. -/
def EndsStopped (s : AsyncLog T) : Prop := s.writer = .done → s.isThreadStop = true

/-- While the flag is not set, the wait of `pop` ends only after a notification. -/
def WakesNotified (s : AsyncLog T) : LogAction T → Prop
  | .writer => s.writer.asleep = true → s.isThreadStop = true
  | _ => True

instance : ∀ (s : AsyncLog T) (a : LogAction T), Decidable (s.WakesNotified a)
  | s, .writer => inferInstanceAs (Decidable (s.writer.asleep = true → s.isThreadStop = true))
  | _, .log _ _ | _, .call _ | _, .destroy | _, .destructor => inferInstanceAs (Decidable True)

/-- A notified writer finds a record or the flag. -/
structure Alive (s : AsyncLog T) : Prop where
  woken : s.writer = .waiting true → s.isThreadStop = true ∨ 0 < s.lBufferQueue.bSize
  ended : s.EndsStopped

/-- Only the end of a wait can end the loop, but for the flag. -/
theorem alive_of_awake (awake : t.writer ≠ .waiting true) (alive : t.writer ≠ .done) : t.Alive :=
  ⟨fun hwaiting ↦ absurd hwaiting awake, fun hdone ↦ absurd hdone alive⟩

/-- A notification with a record in the queue, or with the flag set. -/
theorem Alive.notify (h : s.Alive) (writer : t.writer = s.writer.notify)
    (flag : t.isThreadStop = s.isThreadStop)
    (reason : t.isThreadStop = true ∨ 0 < t.lBufferQueue.bSize) : t.Alive := by
  refine ⟨fun _ ↦ reason, fun hdone ↦ ?_⟩
  rw [flag]
  apply h.ended
  rw [writer] at hdone
  cases hpc : s.writer <;> rw [hpc] at hdone <;> first | rfl | cases hdone

/-- Every step. -/
theorem Alive.step (h : s.Alive) (hl : s.Ordered l) (hf : s.FlagSet) (hok : s.WakesNotified a)
    (hstep : Step s a t) : t.Alive := by
  have hcap := hl.holds.capacity
  have hsize := hl.holds.size
  cases hstep with
  | log | retry | destroy | join => exact ⟨h.woken, h.ended⟩
  | pushed c logStr at_ free room =>
    refine h.notify rfl rfl ?_
    right
    show 0 < s.lBufferQueue.bSize + 1
    omega
  | refused c logStr at_ free full =>
    refine h.notify rfl rfl ?_
    right
    show 0 < s.lBufferQueue.bSize
    omega
  | empty | block | take | pass | fputs =>
    exact alive_of_awake (by simp [takeStmt]) (by simp [takeStmt])
  | fail notified at_ empty =>
    refine ⟨fun hwaiting ↦ (by cases hwaiting), fun _ ↦ ?_⟩
    show s.isThreadStop = true
    cases notified with
    | false => exact hok (by rw [at_]; rfl)
    | true =>
      cases h.woken at_ with
      | inl stop => exact stop
      | inr some_ => omega
  | drop singleLine at_ stop => exact ⟨fun hwaiting ↦ (by cases hwaiting), fun _ ↦ stop⟩
  | stop at_ => exact ⟨fun _ ↦ Or.inl rfl, fun _ ↦ rfl⟩
  | notify at_ =>
    refine h.notify rfl rfl ?_
    left
    show s.isThreadStop = true
    rw [hf, at_]
    rfl

/-- In every state that is reached without a spurious wake-up before the flag. -/
theorem alive_of_reach {cells : Int → T} {bufferQueueSize : Int} (hsize : 1 ≤ bufferQueueSize)
    (h : ReachBy step WakesNotified (init cells bufferQueueSize) s) : s.Alive := by
  have hinv : (∃ l, s.Ordered l) ∧ s.FlagSet ∧ s.Alive := by
    apply h.invariant (P := fun s ↦ (∃ l, s.Ordered l) ∧ s.FlagSet ∧ s.Alive)
    · exact ⟨⟨[], ordered_init hsize⟩, rfl, alive_of_awake (by simp [init]) (by simp [init])⟩
    · intro s a t hs hok hstep
      obtain ⟨⟨l, hl⟩, hflag, halive⟩ := hs
      have hmove := step_inversion hstep
      exact ⟨hl.step hmove, hflag.step hmove, halive.step hl hflag hok hmove⟩
  exact hinv.2.2

/-- A writer that has found the queue empty sleeps on an empty queue. -/
def AsleepOnEmpty (s : AsyncLog T) : Prop :=
  s.writer.foundEmpty = true → s.lBufferQueue.bSize ≤ 0

/-- Every step: whoever pushes a record notifies. -/
theorem AsleepOnEmpty.step (h : s.AsleepOnEmpty) (hstep : Step s a t) : t.AsleepOnEmpty := by
  have hnotify : ∀ pc : WriterPc T, pc.holdsMutex = false → pc.notify.foundEmpty = false := by
    intro pc hfree
    cases pc <;> first | rfl | cases hfree
  cases hstep with
  | log | retry | destroy | stop | join => exact h
  | pushed c logStr at_ free room | refused c logStr at_ free full =>
    intro hempty
    rw [show _ = false from hnotify s.writer free] at hempty
    cases hempty
  | empty at_ empty => exact fun _ ↦ empty
  | block at_ =>
    intro _
    apply h
    rw [at_]
    rfl
  | take | fail | drop | pass | fputs =>
    intro hempty
    cases hempty
  | notify at_ =>
    intro hempty
    apply h
    change s.writer.notify.foundEmpty = true at hempty
    cases hpc : s.writer <;> rw [hpc] at hempty <;> first | rfl | cases hempty

/-- In every reached state. -/
theorem asleepOnEmpty_of_reach {cells : Int → T} {bufferQueueSize : Int}
    (h : Reach step (init cells bufferQueueSize) s) : s.AsleepOnEmpty := by
  apply h.invariant
  · intro hempty
    cases hempty
  · intro s a t hs _ hstep
    exact hs.step (step_inversion hstep)

end AsyncLog

/-- A spurious wake-up before the flag is set always ends the loop. -/
theorem spurious_wakeup_ends_loop {cells : Int → T} {bufferQueueSize : Int} {s t : AsyncLog T}
    (h : Reach AsyncLog.step (.init cells bufferQueueSize) s) (asleep : s.writer = .waiting false)
    (hstep : s.step .writer = some t) :
    t.writer = .done ∧ t.isThreadStop = s.isThreadStop := by
  have hempty : s.lBufferQueue.bSize ≤ 0 := by
    apply AsyncLog.asleepOnEmpty_of_reach h
    rw [asleep]
    rfl
  cases AsyncLog.step_inversion hstep with
  | fail notified at_ empty => exact ⟨rfl, rfl⟩
  | take at_ some_ => exact absurd hempty some_
  | empty at_ | block at_ | drop singleLine at_ | pass singleLine at_ | fputs singleLine at_ =>
    rw [asleep] at at_
    cases at_

/-- If the wait of `pop` ends only after a notification until the flag is set, the loop of
`async_write` ends only after the flag has been set. -/
theorem writer_ends_only_stopped {cells : Int → T} {bufferQueueSize : Int} {s : AsyncLog T}
    (hsize : 1 ≤ bufferQueueSize)
    (h : ReachBy AsyncLog.step AsyncLog.WakesNotified (.init cells bufferQueueSize) s) :
    s.EndsStopped :=
  (AsyncLog.alive_of_reach hsize h).ended

/-- The writer is woken for a record, writes it, sleeps again and is woken by the destructor. -/
def wakeAndStop : List (LogAction Nat) :=
  [.writer, .writer, .log 0 7, .call 0, .writer, .writer, .writer, .writer, .writer, .destroy,
    .destructor, .destructor, .writer]

/-- Its loop ends with the flag set. -/
theorem woken_writer_ends_stopped :
    ∃ s, run AsyncLog.step (.init (fun _ ↦ 0) 1) wakeAndStop = some s ∧ s.EndsStopped := by
  have hrun : (run AsyncLog.step (.init (fun _ ↦ 0) 1) wakeAndStop).isSome := by decide +kernel
  obtain ⟨s, hs⟩ := Option.isSome_iff_exists.mp hrun
  exact ⟨s, hs, writer_ends_only_stopped (by decide) (reachBy_of_run hs (by decide +kernel))⟩

/-- The writer goes to sleep on the empty queue, and its wait ends without a notification. -/
def spuriousWakeup : List (LogAction Nat) := [.writer, .writer, .writer]

/-- The loop ends while the logger is in use. -/
theorem writer_ends_while_in_use :
    ¬ ∀ (cells : Int → Nat) (bufferQueueSize : Int) (s : AsyncLog Nat), 1 ≤ bufferQueueSize →
      Reach AsyncLog.step (.init cells bufferQueueSize) s → s.EndsStopped := by
  intro h
  have hrun : (run AsyncLog.step (.init (fun _ ↦ 0) 1) spuriousWakeup).isSome := by
    decide +kernel
  have hends : ∀ t ∈ run AsyncLog.step (.init (fun _ ↦ 0) 1) spuriousWakeup,
      t.writer = .done ∧ t.isThreadStop = false := by
    decide +kernel
  obtain ⟨s, hs⟩ := Option.isSome_iff_exists.mp hrun
  obtain ⟨hdone, hflag⟩ := hends s hs
  have hstop := h (fun _ ↦ 0) 1 s (by decide) (reach_of_run hs) hdone
  rw [hflag] at hstop
  cases hstop

end ConcurrentServer.Log
