import ConcurrentServer.Pool.IdleCount
import ConcurrentServer.Timer.TimerStep

/-!
# Whether a worker is available

`src/timer/timer.h:57`, `src/threadpool/threadpool.h:65–98`. The idle counter of the pool runs
from the number of workers down to 0, and 0 is what it reads when every worker executes a callback.
`is_available` tests it against 0 with `>=`, so that it has one answer only.
-/

namespace ConcurrentServer.Timer
open ConcurrentServer.Base
open ConcurrentServer.Pool (Threadpool WorkerPc)

namespace TimerSystem

/-- `is_available`; `src/timer/timer.h:57`. -/
def isAvailable (s : TimerSystem) : Bool := decide (s.tmThreadPool.idlThreadCnt ≥ 0)

/-- `is_available` tells whether a worker is idle, by the counter and by the workers. -/
structure TellsIdle (s : TimerSystem) : Prop where
  counter : s.isAvailable = true ↔ 0 < s.tmThreadPool.idlThreadCnt
  busy : (∀ pc ∈ s.tmThreadPool.tpPool, pc.busy = true) → s.isAvailable = false

variable {s t : TimerSystem} {a : TimerAction}

/-- What a step of the timer's threads does to the pool. -/
theorem acts_of_step (h : s.step a = some t) : s.tmThreadPool.Acts t.tmThreadPool := by
  cases step_inversion h with
  | postTask now callback late pool at_ emplaced => exact .emplace callback pool emplaced
  | notify who pool at_ notified => exact .notify who pool notified
  | worker w pool moved => exact .worker w pool moved
  | destroyPool a pool pc pc' pc'' moved => exact .destructor pc pc' pool moved
  | _ => exact .stay

/-- The counter of the timer's pool is in its range in every reached state. -/
theorem idleCounts_of_reach (h : Reach step init s) : s.tmThreadPool.IdleCounts := by
  have hbalance : s.tmThreadPool.Balance 0 ∧
      s.tmThreadPool.tpPool.length = defaultTimerThreadPoolSize := by
    apply h.invariant (P := fun s : TimerSystem ↦ s.tmThreadPool.Balance 0 ∧
      s.tmThreadPool.tpPool.length = defaultTimerThreadPoolSize)
    · exact ⟨Pool.Threadpool.balance_ofSize _, List.length_replicate⟩
    · rintro s a t ⟨hs, hlength⟩ - hstep
      obtain ⟨ht, hsame⟩ := hs.acts (acts_of_step hstep)
      exact ⟨ht, hsame.trans hlength⟩
  exact hbalance.1.idleCounts (by rw [hbalance.2]; decide)

end TimerSystem

/-- The counter is positive as long as some worker is not busy. -/
theorem idlThreadCnt_pos_iff {pool : Threadpool Nat} (h : pool.IdleCounts) :
    0 < pool.idlThreadCnt ↔ ∃ pc ∈ pool.tpPool, pc.busy = false := by
  have hle : pool.busyWorkers ≤ pool.tpPool.length := List.countP_le_length
  have hall : pool.busyWorkers = pool.tpPool.length ↔ ∀ pc ∈ pool.tpPool, pc.busy = true :=
    List.countP_eq_length
  rw [h.balance]
  constructor
  · intro hpos
    by_contra hnone
    have hbusy : pool.busyWorkers = pool.tpPool.length := hall.mpr fun pc hpc ↦ by
      by_contra hidle
      exact hnone ⟨pc, hpc, Bool.eq_false_of_not_eq_true hidle⟩
    omega
  · rintro ⟨pc, hpc, hidle⟩
    have hne : pool.busyWorkers ≠ pool.tpPool.length := by
      intro hbusy
      rw [hall.mp hbusy pc hpc] at hidle
      cases hidle
    omega

/-- In every reached state, `is_available` tells whether a worker is idle exactly if one is: it
returns `true` in any case. -/
theorem is_available_tells_idle_iff {s : TimerSystem} (h : Reach TimerSystem.step .init s) :
    s.TellsIdle ↔ ∃ pc ∈ s.tmThreadPool.tpPool, pc.busy = false := by
  have hcounts := TimerSystem.idleCounts_of_reach h
  have htrue : s.isAvailable = true := decide_eq_true hcounts.nonneg
  rw [← idlThreadCnt_pos_iff hcounts]
  constructor
  · intro htells
    exact htells.counter.mp htrue
  · intro hpos
    refine ⟨iff_of_true htrue hpos, ?_⟩
    intro hbusy
    obtain ⟨pc, hpc, hidle⟩ := (idlThreadCnt_pos_iff hcounts).mp hpos
    rw [hbusy pc hpc] at hidle
    cases hidle

/-- Two timers expire, and worker 0 begins with the first callback. -/
def oneCallback : List TimerAction :=
  .flatten [[.start], runCall 0 (.runAt 0) 0, runCall 1 (.runAt 1) 0,
    expiry ⟨0, 0, 0, 0, false, false, 0⟩ 2, expiry ⟨1, 1, 1, 0, false, false, 0⟩ 2,
    .replicate 7 (.worker 0)]

/-- The other worker is available. -/
theorem available_beside_one_callback :
    ∃ s, run TimerSystem.step .init oneCallback = some s ∧
      (s.TellsIdle ↔ ∃ pc ∈ s.tmThreadPool.tpPool, pc.busy = false) := by
  have hrun : (run TimerSystem.step .init oneCallback).isSome := by decide +kernel
  obtain ⟨s, hs⟩ := Option.isSome_iff_exists.mp hrun
  exact ⟨s, hs, is_available_tells_idle_iff (reach_of_run hs)⟩

/-- When worker 1 executes the second callback, `is_available` still returns `true`. -/
theorem available_though_all_busy :
    ¬ ∀ s, Reach TimerSystem.step .init s → s.TellsIdle := by
  intro h
  have hrun : (run TimerSystem.step .init (oneCallback ++ .replicate 7 (.worker 1))).isSome := by
    decide +kernel
  have hfacts : ∀ t ∈ run TimerSystem.step .init (oneCallback ++ .replicate 7 (.worker 1)),
      t.tmThreadPool.tpPool = [.inside 0, .inside 1] ∧ t.isAvailable = true := by
    decide +kernel
  obtain ⟨s, hs⟩ := Option.isSome_iff_exists.mp hrun
  obtain ⟨hpool, hanswer⟩ := hfacts s hs
  have hbusy := (h s (reach_of_run hs)).busy (by rw [hpool]; decide)
  rw [hanswer] at hbusy
  cases hbusy

end ConcurrentServer.Timer
