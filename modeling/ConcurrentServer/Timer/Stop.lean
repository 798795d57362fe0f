import ConcurrentServer.Base.Threads
import ConcurrentServer.Timer.TimerStep

/-!
# Stopping the tick thread

`src/timer/timer.h:42–50, 124–158`. The destructor clears `tm_running` and notifies without
taking `tm_mutex`, and `run_local` tests the flag before it takes it. A tick thread that is
between its test and its wait at the notification sleeps on; one that is in the wait, or that
finds a node, does not.
-/

namespace ConcurrentServer.Timer
open ConcurrentServer.Base
open ConcurrentServer.Pool (Threadpool)

/-- The call has its insertion before it. -/
def RunPc.toPush : RunPc → Bool
  | .fetchAdd _ | .emplace _ _ | .lock _ _ | .push _ _ => true
  | .idle | .notify _ _ | .unlock _ _ | .returned _ _ => false

/-- The call has its `notify_all` before it. -/
def RunPc.toNotify : RunPc → Bool
  | .fetchAdd _ | .emplace _ _ | .lock _ _ | .push _ _ | .notify _ _ => true
  | .idle | .unlock _ _ | .returned _ _ => false

/-- Past the test of `tm_running` and on the way to the untimed wait, unless a node comes. -/
def TickPc.headsForWait : TickPc → List TimerNode → Bool
  | .lock, tmQueue | .empty, tmQueue => tmQueue.isEmpty
  | .wait, _ => true
  | _, _ => false

/-- Blocked without a notification, or where that can be the next thing to happen. -/
def TickPc.sleepy : TickPc → Bool
  | .lock | .empty | .wait | .waiting false => true
  | _ => false

/-- `tm_running` has been cleared. -/
def TimerDestructorPc.stopped : TimerDestructorPc → Bool
  | .notify | .join | .pool _ | .returned => true
  | .idle | .stop => false

/-- The tick thread has been notified. -/
def TimerDestructorPc.notified : TimerDestructorPc → Bool
  | .join | .pool _ | .returned => true
  | .idle | .stop | .notify => false

namespace TimerSystem

/-- The destructor waits for a tick thread that is blocked in the untimed wait, with no
notification delivered to it or to come from a call. -/
def Hangs (s : TimerSystem) : Prop :=
  s.destructor = .join ∧ s.tick = .waiting false ∧ ∀ k, (s.calls k).toNotify = false

/-- When the destructor notifies it, the tick thread is not on its way to the untimed wait,
unless a call is still to push a node. -/
def NotifiesInTime (s : TimerSystem) : TimerAction → Prop
  | .destructor => s.destructor = .notify → s.tick.headsForWait s.tmQueue = true →
    ∃ k, (s.calls k).toPush = true
  | _ => True

/-- When the destructor notifies it, the tick thread is not on its way to the untimed wait. -/
def NotifiesAsleep (s : TimerSystem) : TimerAction → Prop
  | .destructor => s.destructor = .notify → s.tick.headsForWait s.tmQueue = false
  | _ => True

instance : ∀ (s : TimerSystem) (a : TimerAction), Decidable (s.NotifiesAsleep a)
  | s, .destructor => inferInstanceAs
      (Decidable (s.destructor = .notify → s.tick.headsForWait s.tmQueue = false))
  | _, .start | _, .run _ _ | _, .runStep _ _ | _, .cancel _ _ | _, .cancelStep _ | _, .tick _
  | _, .tickTop _ _ | _, .tickNotify _ | _, .worker _ | _, .destroy =>
    inferInstanceAs (Decidable True)

/-- What no thread is on its way to needs no call. -/
theorem notifiesInTime_of_asleep (s : TimerSystem) (a : TimerAction) (h : s.NotifiesAsleep a) :
    s.NotifiesInTime a := by
  cases a with
  | destructor =>
    intro hnotify hheads
    rw [h hnotify] at hheads
    cases hheads
  | _ => trivial

variable {s t : TimerSystem} {a : TimerAction}

/-! ### The flag -/

/-- The destructor is where it was, and so is the flag. -/
structure SameDestructor (s t : TimerSystem) : Prop where
  destructor : t.destructor = s.destructor
  tmRunning : t.tmRunning = s.tmRunning

/-- A run call. -/
theorem sameDestructor_runStep {k : Nat} {now : Int} (h : s.runStep k now = some t) :
    SameDestructor s t := by
  unfold runStep at h
  split at h
  · cases h
    exact ⟨rfl, rfl⟩
  · cases h
    exact ⟨rfl, rfl⟩
  · split at h
    · cases h
      exact ⟨rfl, rfl⟩
    · cases h
  · cases h
    exact ⟨rfl, rfl⟩
  · cases h
    exact ⟨rfl, rfl⟩
  · cases h
    exact ⟨rfl, rfl⟩
  all_goals cases h

/-- What a statement of the tick thread leaves: the calls and the destructor, and the queue until
a node is taken or put in. -/
structure TickFrame (s t : TimerSystem) : Prop where
  same : SameDestructor s t
  calls : t.calls = s.calls
  sleeps : t.tick.sleepy = true → t.tmQueue = s.tmQueue ∧
    ((s.tick = .head ∧ s.tmRunning = true) ∨ (s.tick = .lock ∧ t.tick = .empty) ∨
      (s.tick = .empty ∧ s.tmQueue = [] ∧ t.tick = .wait) ∨
        (s.tick = .wait ∧ t.tick = .waiting false))

/-- The tick thread. -/
theorem tickFrame_tickStep {now : Int} (h : s.tickStep now = some t) : TickFrame s t := by
  unfold tickStep at h
  split at h
  · rename_i at_
    cases h
    refine ⟨⟨rfl, rfl⟩, rfl, fun hsleepy ↦ ⟨rfl, Or.inl ⟨at_, ?_⟩⟩⟩
    by_contra hrun
    rw [show (if s.tmRunning then TickPc.lock else .done) = .done from if_neg hrun] at hsleepy
    cases hsleepy
  · rename_i at_
    split at h
    · cases h
      exact ⟨⟨rfl, rfl⟩, rfl, fun _ ↦ ⟨rfl, Or.inr (Or.inl ⟨at_, rfl⟩)⟩⟩
    · cases h
  · rename_i at_
    cases h
    refine ⟨⟨rfl, rfl⟩, rfl, fun hsleepy ↦ ⟨rfl, ?_⟩⟩
    by_cases hempty : s.tmQueue.isEmpty = true
    · exact Or.inr (Or.inr (Or.inl ⟨at_, List.isEmpty_iff.mp hempty, if_pos hempty⟩))
    · rw [show (if s.tmQueue.isEmpty then TickPc.wait else .top) = .top from if_neg hempty]
        at hsleepy
      cases hsleepy
  · rename_i at_
    cases h
    exact ⟨⟨rfl, rfl⟩, rfl, fun _ ↦ ⟨rfl, Or.inr (Or.inr (Or.inr ⟨at_, rfl⟩))⟩⟩
  · cases h
    exact ⟨⟨rfl, rfl⟩, rfl, fun hsleepy ↦ by cases hsleepy⟩
  · split at h
    · cases h
      exact ⟨⟨rfl, rfl⟩, rfl, fun hsleepy ↦ by cases hsleepy⟩
    · cases h
  · split at h
    · cases h
      exact ⟨⟨rfl, rfl⟩, rfl, fun hsleepy ↦ by cases hsleepy⟩
    · cases h
  · cases h
    exact ⟨⟨rfl, rfl⟩, rfl, fun hsleepy ↦ by cases hsleepy⟩
  · split at h
    · cases h
      exact ⟨⟨rfl, rfl⟩, rfl, fun hsleepy ↦ by cases hsleepy⟩
    · cases h
      exact ⟨⟨rfl, rfl⟩, rfl, fun hsleepy ↦ by cases hsleepy⟩
  · cases h
    exact ⟨⟨rfl, rfl⟩, rfl, fun hsleepy ↦ by cases hsleepy⟩
  · cases h
    exact ⟨⟨rfl, rfl⟩, rfl, fun hsleepy ↦ by cases hsleepy⟩
  · split at h
    · cases h
      exact ⟨⟨rfl, rfl⟩, rfl, fun hsleepy ↦ by cases hsleepy⟩
    · cases h
  · obtain ⟨pool, -, rfl⟩ := Option.map_eq_some_iff.mp h
    exact ⟨⟨rfl, rfl⟩, rfl, fun hsleepy ↦ by cases hsleepy⟩
  all_goals cases h

/-- `tm_queue.top()`. -/
theorem tickFrame_tickTopStep {n : TimerNode} {now : Int} (h : s.tickTopStep n now = some t) :
    TickFrame s t := by
  unfold tickTopStep at h
  split at h
  · cases h
    refine ⟨⟨rfl, rfl⟩, rfl, fun hsleepy ↦ ?_⟩
    simp only at hsleepy
    split at hsleepy <;> cases hsleepy
  · cases h

/-- The end of `post_task`. -/
theorem tickFrame_tickNotifyStep {who : Option Nat} (h : s.tickNotifyStep who = some t) :
    TickFrame s t := by
  unfold tickNotifyStep at h
  split at h
  · obtain ⟨pool, -, rfl⟩ := Option.map_eq_some_iff.mp h
    exact ⟨⟨rfl, rfl⟩, rfl, fun hsleepy ↦ by cases hsleepy⟩
  · cases h

/-- What a step does, seen from the destructor and the tick thread. -/
inductive StopStep (s : TimerSystem) : TimerAction → TimerSystem → Prop
  | start : StopStep s .start { s with tick := .head }
  | run (k : Nat) (call : RunCall) : StopStep s (.run k call) (s.setCall k (.fetchAdd call))
  | runStep (k : Nat) (now : Int) (t : TimerSystem) (moved : s.runStep k now = some t) :
    StopStep s (.runStep k now) t
  | other (a : TimerAction) (t : TimerSystem) (same : SameDestructor s t) (tick : t.tick = s.tick)
    (queue : t.tmQueue = s.tmQueue) (calls : t.calls = s.calls) : StopStep s a t
  | tick (a : TimerAction) (t : TimerSystem) (frame : TickFrame s t) : StopStep s a t
  | destroy : StopStep s .destroy { s with destructor := .stop }
  | stop : StopStep s .destructor { s with destructor := .notify, tmRunning := false }
  | notify (at_ : s.destructor = .notify) :
    StopStep s .destructor { s with destructor := .join, tick := s.tick.notified }
  | joined (pool : Threadpool Nat) (pc : TimerDestructorPc) (at_ : s.destructor.notified = true) :
    StopStep s .destructor { s with tmThreadPool := pool, destructor := pc }

/-- The destructor. -/
theorem stopStep_of_destructorStep (h : s.destructorStep = some t) :
    StopStep s .destructor t := by
  unfold destructorStep at h
  split at h
  · cases h
    exact .stop
  · rename_i at_
    cases h
    exact .notify at_
  · rename_i at_
    split at h
    · cases h
      exact .joined s.tmThreadPool _ (by rw [at_]; rfl)
    · cases h
  · rename_i pc at_
    obtain ⟨⟨pool, pc'⟩, -, rfl⟩ := Option.map_eq_some_iff.mp h
    exact .joined pool _ (by rw [at_]; rfl)
  · cases h
  · cases h

/-- Every step is one of these. -/
theorem stopStep_of_step (h : s.step a = some t) : StopStep s a t := by
  unfold TimerSystem.step at h
  split at h
  · cases h
  cases a with
  | start =>
    simp only [Option.ite_none_right_eq_some, Option.some.injEq] at h
    obtain ⟨-, rfl⟩ := h
    exact .start
  | run k call =>
    simp only [Option.ite_none_right_eq_some, Option.some.injEq] at h
    obtain ⟨-, rfl⟩ := h
    exact .run k call
  | runStep k now => exact .runStep k now t h
  | cancel c id =>
    simp only [Option.ite_none_right_eq_some, Option.some.injEq] at h
    obtain ⟨-, rfl⟩ := h
    exact .other _ _ ⟨rfl, rfl⟩ rfl rfl rfl
  | cancelStep c =>
    replace h : s.cancelStep c = some t := h
    unfold TimerSystem.cancelStep at h
    split at h <;> cases h <;> exact .other _ _ ⟨rfl, rfl⟩ rfl rfl rfl
  | tick now => exact .tick _ t (tickFrame_tickStep h)
  | tickTop n now => exact .tick _ t (tickFrame_tickTopStep h)
  | tickNotify who => exact .tick _ t (tickFrame_tickNotifyStep h)
  | worker w =>
    obtain ⟨pool, -, rfl⟩ := Option.map_eq_some_iff.mp h
    exact .other _ _ ⟨rfl, rfl⟩ rfl rfl rfl
  | destroy =>
    simp only [Option.ite_none_right_eq_some, Option.some.injEq] at h
    obtain ⟨-, rfl⟩ := h
    exact .destroy
  | destructor => exact stopStep_of_destructorStep h

/-- The workers are notified after the flag has been cleared. -/
theorem stopped_of_notified {pc : TimerDestructorPc} (h : pc.notified = true) :
    pc.stopped = true := by
  cases pc <;> first | rfl | cases h

/-- The flag is cleared once the destructor has done so. -/
def FlagCleared (s : TimerSystem) : Prop := s.destructor.stopped = true → s.tmRunning = false

/-- Where the destructor stays, the flag does. -/
theorem FlagCleared.of_same (h : s.FlagCleared) (same : SameDestructor s t) : t.FlagCleared := by
  intro hstopped
  rw [same.destructor] at hstopped
  rw [same.tmRunning]
  exact h hstopped

/-- Every step. -/
theorem FlagCleared.step (h : s.FlagCleared) (hstep : StopStep s a t) : t.FlagCleared := by
  cases hstep with
  | start | run => exact h
  | runStep k now _ moved => exact h.of_same (sameDestructor_runStep moved)
  | other _ _ same => exact h.of_same same
  | tick _ _ frame => exact h.of_same frame.same
  | destroy =>
    intro hstopped
    cases hstopped
  | stop =>
    intro _
    rfl
  | notify at_ =>
    intro _
    exact h (by rw [at_]; rfl)
  | joined pool pc at_ =>
    intro _
    exact h (stopped_of_notified at_)

/-- In every reached state. -/
theorem flagCleared_of_reach (h : Reach step init s) : s.FlagCleared := by
  apply h.invariant
  · intro hstopped
    cases hstopped
  · intro s a t hs _ hstep
    exact hs.step (stopStep_of_step hstep)

/-! ### After the notification -/

/-- A tick thread on its way to the untimed wait, or asleep in it, has a call to wake it. -/
structure Wakeable (s : TimerSystem) : Prop where
  heads : s.tick.headsForWait s.tmQueue = true → ∃ k, (s.calls k).toPush = true
  asleep : s.tick = .waiting false → ∃ k, (s.calls k).toNotify = true

/-- A call that has a node to push has a notification to give. -/
theorem toNotify_of_toPush {pc : RunPc} (h : pc.toPush = true) : pc.toNotify = true := by
  cases pc <;> first | rfl | cases h

@[simp] theorem headsForWait_notified (pc : TickPc) (tmQueue : List TimerNode) :
    pc.notified.headsForWait tmQueue = pc.headsForWait tmQueue := by
  cases pc <;> rfl

/-- A notified tick thread is not asleep. -/
theorem notified_ne_asleep (pc : TickPc) : pc.notified ≠ .waiting false := by
  cases pc <;> simp [TickPc.notified]

/-- Nothing that it is about changes. -/
theorem Wakeable.of_same (h : s.Wakeable) (tick : t.tick = s.tick) (queue : t.tmQueue = s.tmQueue)
    (calls : t.calls = s.calls) : t.Wakeable := by
  constructor
  · rw [tick, queue, calls]
    exact h.heads
  · rw [tick, calls]
    exact h.asleep

/-- A tick thread that is elsewhere does not head for the wait. -/
theorem headsForWait_of_awake {pc : TickPc} (awake : pc.sleepy = false)
    (tmQueue : List TimerNode) : pc.headsForWait tmQueue = false := by
  cases pc <;> first | rfl | cases awake

/-- A tick thread that is elsewhere needs no call. -/
theorem wakeable_of_awake (awake : t.tick.sleepy = false) : t.Wakeable := by
  constructor
  · intro hheads
    rw [headsForWait_of_awake awake] at hheads
    cases hheads
  · intro hasleep
    rw [hasleep] at awake
    cases awake

/-- The tick thread does not get past its test again. -/
theorem Wakeable.tick (h : s.Wakeable) (hrun : s.tmRunning = false) (hf : TickFrame s t) :
    t.Wakeable := by
  cases hsleepy : t.tick.sleepy with
  | false => exact wakeable_of_awake hsleepy
  | true =>
    obtain ⟨hqueue, hmove⟩ := hf.sleeps hsleepy
    rcases hmove with ⟨-, hrunning⟩ | ⟨at_, after⟩ | ⟨at_, hempty, after⟩ | ⟨at_, after⟩
    · rw [hrun] at hrunning
      cases hrunning
    · constructor
      · rw [after, hqueue, hf.calls]
        intro hheads
        exact h.heads (by rw [at_]; exact hheads)
      · rw [after]
        intro hasleep
        cases hasleep
    · constructor
      · rw [hf.calls]
        intro _
        exact h.heads (by rw [at_, hempty]; rfl)
      · rw [after]
        intro hasleep
        cases hasleep
    · constructor
      · rw [after]
        intro hheads
        cases hheads
      · rw [hf.calls]
        intro _
        obtain ⟨k, hk⟩ := h.heads (by rw [at_]; rfl)
        exact ⟨k, toNotify_of_toPush hk⟩

/-- Before the wait, and not because of an empty queue. -/
theorem wait_of_headsForWait {pc : TickPc} {n : TimerNode} {tmQueue : List TimerNode}
    (h : pc.headsForWait (n :: tmQueue) = true) : pc = .wait := by
  cases pc <;> first | rfl | cases h

/-- A call moves on and loses neither its insertion nor its notification. -/
theorem Wakeable.setCall (h : s.Wakeable) {k : Nat} {pc : RunPc}
    (tick : t.tick = s.tick) (queue : t.tmQueue = s.tmQueue)
    (calls : t.calls = Function.update s.calls k pc)
    (push : (s.calls k).toPush = true → pc.toPush = true)
    (notify : (s.calls k).toNotify = true → pc.toNotify = true) : t.Wakeable := by
  constructor
  · rw [tick, queue, calls]
    intro hheads
    exact exists_update_of_keeps (h.heads hheads) push
  · rw [tick, calls]
    intro hasleep
    exact exists_update_of_keeps (h.asleep hasleep) notify

/-- A run call. -/
theorem Wakeable.runStep (h : s.Wakeable) (hx : s.Exclusive) {k : Nat} {now : Int}
    (hstep : s.runStep k now = some t) : t.Wakeable := by
  unfold TimerSystem.runStep at hstep
  split at hstep
  · cases hstep
    exact h.setCall rfl rfl rfl (fun _ ↦ rfl) fun _ ↦ rfl
  · cases hstep
    exact h.setCall rfl rfl rfl (fun _ ↦ rfl) fun _ ↦ rfl
  · split at hstep
    · cases hstep
      exact h.setCall rfl rfl rfl (fun _ ↦ rfl) fun _ ↦ rfl
    · cases hstep
  · rename_i call n at_
    cases hstep
    constructor
    · -- the queue is not empty, and a tick thread before its wait would hold the mutex
      show s.tick.headsForWait (n :: s.tmQueue) = true → _
      intro hheads
      have hheld : s.tick.holds = true := by
        rw [wait_of_headsForWait hheads]
        rfl
      have hcall : (s.calls k).holds = true := by
        rw [at_]
        rfl
      rw [hx.not_tick hcall] at hheld
      cases hheld
    · intro hasleep
      exact exists_update_of_keeps (h.asleep hasleep) fun _ ↦ rfl
  · rename_i call n at_
    cases hstep
    constructor
    · show s.tick.notified.headsForWait s.tmQueue = true → _
      rw [headsForWait_notified]
      intro hheads
      apply exists_update_of_keeps (h.heads hheads)
      intro hpush
      rw [at_] at hpush
      cases hpush
    · intro hasleep
      exact absurd hasleep (notified_ne_asleep s.tick)
  · rename_i call n at_
    cases hstep
    exact h.setCall rfl rfl rfl (by rw [at_]; exact id) (by rw [at_]; exact id)
  all_goals cases hstep

/-- Every step with the flag cleared. -/
theorem Wakeable.step (h : s.Wakeable) (hx : s.Exclusive) (hrun : s.tmRunning = false)
    (hstep : StopStep s a t) : t.Wakeable := by
  cases hstep with
  | start => exact wakeable_of_awake rfl
  | run k call => exact h.setCall rfl rfl rfl (fun _ ↦ rfl) fun _ ↦ rfl
  | runStep k now _ moved => exact h.runStep hx moved
  | other _ _ same tick queue calls => exact h.of_same tick queue calls
  | tick _ _ frame => exact h.tick hrun frame
  | destroy | stop | joined => exact h.of_same rfl rfl rfl
  | notify at_ =>
    constructor
    · show s.tick.notified.headsForWait s.tmQueue = true → _
      rw [headsForWait_notified]
      exact h.heads
    · intro hasleep
      exact absurd hasleep (notified_ne_asleep s.tick)

/-- Only the notification of the destructor gets it past it. -/
theorem notify_of_notified (hstep : StopStep s a t) (before : s.destructor.notified = false)
    (after : t.destructor.notified = true) :
    a = .destructor ∧ s.destructor = .notify ∧
      t = { s with destructor := .join, tick := s.tick.notified } := by
  have hsame : ¬ SameDestructor s t := by
    intro hsame
    rw [hsame.destructor, before] at after
    cases after
  cases hstep with
  | start | run => exact absurd ⟨rfl, rfl⟩ hsame
  | runStep k now _ moved => exact absurd (sameDestructor_runStep moved) hsame
  | other _ _ same => exact absurd same hsame
  | tick _ _ frame => exact absurd frame.same hsame
  | destroy | stop => cases after
  | notify at_ => exact ⟨rfl, at_, rfl⟩
  | joined pool pc at_ =>
    rw [at_] at before
    cases before

/-- The notification, when it is in time. -/
theorem wakeable_of_notify (hok : s.NotifiesInTime .destructor) (at_ : s.destructor = .notify) :
    { s with destructor := .join, tick := s.tick.notified }.Wakeable := by
  constructor
  · show s.tick.notified.headsForWait s.tmQueue = true → _
    rw [headsForWait_notified]
    exact hok at_
  · intro hasleep
    exact absurd hasleep (notified_ne_asleep s.tick)

/-- After a notification in time, in every reached state. -/
theorem wakeable_of_reach (h : ReachBy step NotifiesInTime init s) :
    s.destructor.notified = true → s.Wakeable := by
  apply h.after (E := fun s ↦ s.destructor.notified = true) (P := Wakeable)
  · intro hnotified
    cases hnotified
  · intro s a t hs hbefore hok hstep hafter
    obtain ⟨rfl, at_, rfl⟩ :=
      notify_of_notified (stopStep_of_step hstep) (Bool.eq_false_of_not_eq_true hbefore) hafter
    exact wakeable_of_notify hok at_
  · intro s a t hs hafter hwake hstep
    have hrun : s.tmRunning = false := flagCleared_of_reach hs.reach (stopped_of_notified hafter)
    exact hwake.step (exclusive_of_reach hs.reach) hrun (stopStep_of_step hstep)

end TimerSystem

/-- If the destructor notifies no tick thread on its way to the untimed wait, it never waits for
a tick thread that nobody wakes. -/
theorem timer_stop_never_hangs {s : TimerSystem}
    (h : ReachBy TimerSystem.step TimerSystem.NotifiesInTime .init s) : ¬ s.Hangs := by
  rintro ⟨hjoin, hasleep, hnone⟩
  have hwake := TimerSystem.wakeable_of_reach h (by rw [hjoin]; rfl)
  obtain ⟨k, hk⟩ := hwake.asleep hasleep
  rw [hnone k] at hk
  cases hk

/-- The tick thread sleeps on the empty queue when the timer is destroyed. -/
def stopAsleep : List TimerAction :=
  [.start, .tick 0, .tick 0, .tick 0, .tick 0, .destroy, .destructor, .destructor]

/-- It is woken. -/
theorem sleeping_tick_thread_is_woken :
    ∃ s, run TimerSystem.step .init stopAsleep = some s ∧ ¬ s.Hangs := by
  have hrun : (run TimerSystem.step .init stopAsleep).isSome := by decide +kernel
  obtain ⟨s, hs⟩ := Option.isSome_iff_exists.mp hrun
  have hok : Admits TimerSystem.step TimerSystem.NotifiesAsleep .init stopAsleep := by
    decide +kernel
  exact ⟨s, hs, timer_stop_never_hangs
    (reachBy_of_run hs (hok.weaken TimerSystem.notifiesInTime_of_asleep))⟩

/-- The destructor clears the flag and notifies when the tick thread has tested the flag and not
reached its wait. -/
def stopBeforeWait : List TimerAction :=
  [.start, .tick 0, .tick 0, .destroy, .destructor, .destructor, .tick 0, .tick 0]

/-- The tick thread goes to sleep, and the destructor waits for it. -/
theorem notification_comes_before_wait :
    ¬ ∀ s, Reach TimerSystem.step .init s → ¬ s.Hangs := by
  intro h
  have hrun : (run TimerSystem.step .init stopBeforeWait).isSome := by decide +kernel
  have hends : ∀ t ∈ run TimerSystem.step .init stopBeforeWait,
      t.destructor = .join ∧ t.tick = .waiting false := by
    decide +kernel
  obtain ⟨s, hs⟩ := Option.isSome_iff_exists.mp hrun
  obtain ⟨hjoin, hasleep⟩ := hends s hs
  have hcalls : (run TimerSystem.step .init stopBeforeWait).map TimerSystem.calls =
      some fun _ ↦ .idle := rfl
  rw [hs] at hcalls
  apply h s (reach_of_run hs)
  refine ⟨hjoin, hasleep, fun k ↦ ?_⟩
  rw [show s.calls = fun _ ↦ .idle from Option.some.inj hcalls]
  rfl

end ConcurrentServer.Timer
