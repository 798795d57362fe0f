import ConcurrentServer.Timer.TimerStep

/-!
# The tick thread never oversleeps

`src/timer/timer.h:60–158`. From its look at `tm_queue` until it blocks, the tick thread holds
`tm_mutex`; whoever inserts a node later notifies it before it releases `tm_mutex`. So what it
computed its wait from still holds whenever it is blocked and no notification has been delivered
or is about to be.
-/

namespace ConcurrentServer.Timer
open ConcurrentServer.Base

/-- What the tick thread saw in the queue before it went to sleep is still there, unless it has
been notified. -/
def TickPc.UpToDate : TickPc → List TimerNode → Prop
  | .wait, tmQueue | .waiting false, tmQueue => tmQueue = []
  | .waitFor n, tmQueue | .waitingFor n false, tmQueue => IsTop n tmQueue
  | _, _ => True

namespace TimerSystem

variable {s t : TimerSystem} {a : TimerAction}

/-- A tick thread outside its critical section is notified of every insertion. -/
theorem upToDate_notified {pc : TickPc} (outside : pc.holds = false) (tmQueue : List TimerNode) :
    pc.notified.UpToDate tmQueue := by
  cases pc with
  | wait => cases outside
  | waitFor n => cases outside
  | _ => trivial

/-- A notification alone. -/
theorem upToDate_of_notified {pc : TickPc} {tmQueue : List TimerNode} (h : pc.UpToDate tmQueue) :
    pc.notified.UpToDate tmQueue := by
  cases pc with
  | wait => exact h
  | waitFor n => exact h
  | _ => trivial

/-- The moves of the tick thread. -/
theorem upToDate_tickMove {pc : TickPc} {holder : Option Holder} (h : s.tick.UpToDate s.tmQueue)
    (move : TickMove s pc holder) : pc.UpToDate s.tmQueue := by
  cases move with
  | empty at_ queue => exact queue
  | wait at_ =>
    rw [at_] at h
    exact h
  | early n at_ top => exact top
  | waitFor n at_ =>
    rw [at_] at h
    exact h
  | _ => trivial

/-- Unless a call is about to notify it, the tick thread went to sleep on what is in the queue. -/
def UpToDate (s : TimerSystem) : Prop :=
  (∀ k, (s.calls k).inserting = false) → s.tick.UpToDate s.tmQueue

/-- While `tm_mutex` is free, no call is inserting. -/
theorem Exclusive.not_inserting (h : s.Exclusive) (free : s.tmMutex = none) (k : Nat) :
    (s.calls k).inserting = false := by
  apply Bool.eq_false_of_not_eq_true
  intro hinserting
  have held : (s.calls k).holds = true := by
    cases hpc : s.calls k <;> rw [hpc] at hinserting <;> first
      | rfl
      | cases hinserting
  have hcall := h.call k held
  rw [free] at hcall
  cases hcall

/-- If no call is inserting after one has moved that was not, none was before. -/
theorem not_inserting_of_update {k : Nat} {pc : RunPc} (self : (s.calls k).inserting = false)
    (h : ∀ k', (Function.update s.calls k pc k').inserting = false) (k' : Nat) :
    (s.calls k').inserting = false := by
  have hk' := h k'
  by_cases hk : k' = k
  · rw [hk]
    exact self
  · rw [Function.update_of_ne hk] at hk'
    exact hk'

/-- Every step. -/
theorem UpToDate.step (h : s.UpToDate) (hx : s.Exclusive) (hstep : Step s a t) : t.UpToDate := by
  intro none
  cases hstep with
  | push k now call n at_ =>
    have hk : (Function.update s.calls k (.notify call n) k).inserting = false := none k
    rw [Function.update_self] at hk
    cases hk
  | notifyCall k now call n at_ =>
    apply upToDate_notified
    exact hx.not_tick (by rw [at_]; rfl)
  | run k call at_ | fetchAdd k now call at_ | emplace k now call id at_
  | lockCall k now call n at_ free | unlockCall k now call n at_ =>
    exact h (not_inserting_of_update (by rw [at_]; rfl) none)
  | tickMove a pc holder move =>
    show pc.UpToDate s.tmQueue
    exact upToDate_tickMove (h none) move
  | notifyTick a pc => exact upToDate_of_notified (h none)
  | pop | drop | rearm | postTask | notify => trivial
  | cancel | cancelTest | cancelErase | cancelRet | worker | destructor | destroyPool =>
    exact h none

/-- In every reached state the critical sections are exclusive, and what the tick thread went to
sleep on still holds. -/
theorem upToDate_of_reach (h : Reach step init s) : s.Exclusive ∧ s.UpToDate := by
  apply h.invariant ⟨exclusive_init, fun _ ↦ trivial⟩
  intro s a t hs _ hstep
  have hmove := step_inversion hstep
  exact ⟨hs.1.step hmove, hs.2.step hs.1 hmove⟩

end TimerSystem

/-- Whenever the tick thread is blocked with no notification delivered to it, and no call is
between its insertion and its notification, either the tick thread is in the untimed wait and no
node is in the queue, or it is in the timed wait for a node that is still one of the earliest. -/
theorem tick_thread_never_oversleeps {s : TimerSystem} (h : Reach TimerSystem.step .init s)
    (none : ∀ k, (s.calls k).inserting = false) :
    (s.tick = .waiting false → s.tmQueue = []) ∧
      ∀ n, s.tick = .waitingFor n false →
        n ∈ s.tmQueue ∧ ∀ x ∈ s.tmQueue, n.tnTmPoint ≤ x.tnTmPoint := by
  have hup := (TimerSystem.upToDate_of_reach h).2 none
  constructor
  · intro hwait
    rw [hwait] at hup
    exact hup
  · intro n hwait
    rw [hwait] at hup
    exact hup

/-- The tick thread waits for a node; an earlier one is inserted, and it waits for that one. -/
def earlierInsertion : List TimerAction :=
  .flatten [[.start], runCall 0 (.runAfter 10 false) 0,
    [.tick 0, .tick 0, .tick 0, .tickTop ⟨10000000, 0, 0, 0, false, false, 10⟩ 0, .tick 0],
    runCall 1 (.runAfter 5 false) 1,
    [.tick 2, .tick 2, .tick 2, .tick 2, .tickTop ⟨5000001, 1, 1, 0, false, false, 5⟩ 2, .tick 2]]

/-- What it waits for is the earlier one. -/
theorem sleep_after_earlier_insertion :
    ∃ s, run TimerSystem.step .init earlierInsertion = some s ∧
      ((s.tick = .waiting false → s.tmQueue = []) ∧
        ∀ n, s.tick = .waitingFor n false →
          n ∈ s.tmQueue ∧ ∀ x ∈ s.tmQueue, n.tnTmPoint ≤ x.tnTmPoint) := by
  have hrun : (run TimerSystem.step .init earlierInsertion).isSome := by decide +kernel
  have hfree : ∀ t ∈ run TimerSystem.step .init earlierInsertion, t.tmMutex = none := by
    decide +kernel
  obtain ⟨s, hs⟩ := Option.isSome_iff_exists.mp hrun
  have hreach := reach_of_run hs
  have hexclusive := (TimerSystem.upToDate_of_reach hreach).1
  exact ⟨s, hs, tick_thread_never_oversleeps hreach (hexclusive.not_inserting (hfree s hs))⟩

/-- The tick thread blocks on the empty queue, and a call pushes its node. -/
def pushBeforeNotify : List TimerAction :=
  [.start, .tick 0, .tick 0, .tick 0, .tick 0, .run 0 (.runAfter 10 false)] ++
    List.replicate 4 (.runStep 0 0)

/-- Until the call notifies it, the tick thread is in the untimed wait although a node is in the
queue. -/
theorem pushed_and_not_notified :
    ¬ ∀ s, Reach TimerSystem.step .init s →
      (s.tick = .waiting false → s.tmQueue = []) ∧
        ∀ n, s.tick = .waitingFor n false →
          n ∈ s.tmQueue ∧ ∀ x ∈ s.tmQueue, n.tnTmPoint ≤ x.tnTmPoint := by
  intro h
  have hrun : (run TimerSystem.step .init pushBeforeNotify).isSome := by decide +kernel
  have hqueue : ∀ t ∈ run TimerSystem.step .init pushBeforeNotify,
      t.tick = .waiting false ∧ t.tmQueue ≠ [] := by
    decide +kernel
  obtain ⟨s, hs⟩ := Option.isSome_iff_exists.mp hrun
  obtain ⟨hwait, hnode⟩ := hqueue s hs
  exact hnode ((h s (reach_of_run hs)).1 hwait)

end ConcurrentServer.Timer
