import ConcurrentServer.Base.Int32
import ConcurrentServer.Pool.Futures

/-!
# The idle counter

`src/threadpool/threadpool.h:24–27, 65–98`. A worker takes itself off `tp_idl_tnum` before its
task and puts itself back after it, outside the lock, and the constructing thread counts each
worker after it has started it, while that worker may already run. So the counter is the number of
threads without the busy ones and without the one that has just been started.
-/

namespace ConcurrentServer.Pool
open ConcurrentServer.Base

variable {Task E V : Type}

namespace WorkerPc

/-- Between `tp_idl_tnum--` and `tp_idl_tnum++`. -/
def busy : WorkerPc Task → Bool
  | .call _ | .inside _ | .inc => true
  | .head | .lock | .pred | .block | .blocked _ | .exitTest | .take | .dec _ | .done => false

@[simp] theorem busy_notify (pc : WorkerPc Task) : pc.notify.busy = pc.busy := by
  cases pc <;> rfl

end WorkerPc

namespace Threadpool

/-- `idl_thread_cnt`; `src/threadpool/threadpool.h:65`. -/
def idlThreadCnt (s : Threadpool Task) : Int := s.tpIdlTnum

/-- `thread_cnt`; `src/threadpool/threadpool.h:67`. -/
def threadCnt (s : Threadpool Task) : Int := int32 s.tpPool.length

/-- The number of workers between their decrement and their increment. -/
def busyWorkers (s : Threadpool Task) : Nat := s.tpPool.countP WorkerPc.busy

variable {s t : Threadpool Task} {uncounted : Int}

/-! ### Steps -/

/-- What the threads at work on a pool do to it. -/
inductive Acts (s : Threadpool Task) : Threadpool Task → Prop
  | stay : Acts s s
  | emplace (task : Task) (t : Threadpool Task) (emplaced : s.emplace task = some t) : Acts s t
  | notify (who : Option Nat) (t : Threadpool Task) (notified : s.notifyOne who = some t) :
    Acts s t
  | worker (w : Nat) (t : Threadpool Task) (moved : s.workerStep w = some t) : Acts s t
  | destructor (pc pc' : DestructorPc) (t : Threadpool Task)
    (moved : s.destructorStep pc = some (t, pc')) : Acts s t

/-- The counter, the busy workers and what has not been counted yet make up the threads. -/
def Balance (s : Threadpool Task) (uncounted : Int) : Prop :=
  s.tpIdlTnum + s.busyWorkers + uncounted = s.tpPool.length

/-- A worker moves on and changes the counter by as much as the number of busy workers. -/
theorem Balance.setWorker (h : s.Balance uncounted) {w : Nat} {pc pc' : WorkerPc Task}
    (at_ : s.tpPool[w]? = some pc) (pool : t.tpPool = s.tpPool.set w pc')
    (idle : t.tpIdlTnum + (if pc'.busy then 1 else 0 : Nat) =
      s.tpIdlTnum + (if pc.busy then 1 else 0 : Nat)) : t.Balance uncounted := by
  have hcount := countP_setThread WorkerPc.busy at_ pc'
  unfold Balance busyWorkers at h ⊢
  rw [pool, List.length_set]
  omega

/-- A worker. -/
theorem Balance.workerStep (h : s.Balance uncounted) {w : Nat} (ht : s.workerStep w = some t) :
    t.Balance uncounted := by
  unfold Threadpool.workerStep at ht
  split at ht
  · cases ht
  · cases ht
  · rename_i at_
    cases ht
    refine h.setWorker at_ rfl ?_
    split <;> rfl
  · rename_i at_
    split at ht
    · cases ht
      exact h.setWorker at_ rfl rfl
    · cases ht
  · rename_i at_
    split at ht
    · cases ht
      exact h.setWorker at_ rfl rfl
    · cases ht
  · rename_i at_
    cases ht
    refine h.setWorker at_ rfl ?_
    split <;> rfl
  · rename_i at_
    cases ht
    exact h.setWorker at_ rfl rfl
  · rename_i at_
    split at ht
    · cases ht
      exact h.setWorker at_ rfl rfl
    · cases ht
      exact h.setWorker at_ rfl rfl
  · rename_i at_
    split at ht
    · cases ht
    · cases ht
      exact h.setWorker at_ rfl rfl
  · rename_i at_
    cases ht
    refine h.setWorker at_ rfl ?_
    show s.tpIdlTnum - 1 + 1 = s.tpIdlTnum + 0
    omega
  · rename_i at_
    cases ht
    exact h.setWorker at_ rfl rfl
  · rename_i at_
    cases ht
    exact h.setWorker at_ rfl rfl
  · rename_i at_
    cases ht
    refine h.setWorker at_ rfl ?_
    show s.tpIdlTnum + 1 + 0 = s.tpIdlTnum + 1
    omega

/-- `notify_all`. -/
theorem Balance.notifyAll (h : s.Balance uncounted) : s.notifyAll.Balance uncounted := by
  have hbusy : s.notifyAll.busyWorkers = s.busyWorkers := by
    show (s.tpPool.map WorkerPc.notify).countP WorkerPc.busy = _
    rw [List.countP_map]
    congr 1
    ext pc
    exact WorkerPc.busy_notify pc
  unfold Balance at h ⊢
  rw [hbusy, show s.notifyAll.tpPool.length = _ from List.length_map _]
  exact h

/-- What the threads at work do keeps the balance and the number of threads. -/
theorem Balance.acts (h : s.Balance uncounted) (ht : s.Acts t) :
    t.Balance uncounted ∧ t.tpPool.length = s.tpPool.length := by
  cases ht with
  | stay => exact ⟨h, rfl⟩
  | emplace task _ emplaced =>
    unfold Threadpool.emplace at emplaced
    split at emplaced
    · cases emplaced
      exact ⟨h, rfl⟩
    · cases emplaced
  | notify who _ notified =>
    unfold notifyOne at notified
    split at notified
    · split at notified
      · rename_i at_
        cases notified
        exact ⟨h.setWorker at_ rfl rfl, List.length_set⟩
      · cases notified
    · split at notified
      · cases notified
      · cases notified
        exact ⟨h, rfl⟩
  | worker w _ moved =>
    obtain ⟨pc, pc', hw⟩ := workerStep_inversion moved
    exact ⟨h.workerStep moved, by rw [hw.pool, List.length_set]⟩
  | destructor pc pc' _ moved =>
    unfold destructorStep at moved
    split at moved
    · cases moved
      exact ⟨h, rfl⟩
    · cases moved
      exact ⟨h.notifyAll, List.length_map _⟩
    · split at moved <;> cases moved <;> exact ⟨h, rfl⟩
    · cases moved
    · cases moved

/-- Workers that have not begun. -/
theorem balance_ofSize (n : Nat) : (ofSize n : Threadpool Task).Balance 0 := by
  show (n : Int) + ((List.replicate n WorkerPc.head).countP WorkerPc.busy : Nat) + 0 =
    (List.replicate n WorkerPc.head : List (WorkerPc Task)).length
  rw [List.countP_replicate, List.length_replicate]
  exact Int.add_zero _

/-- The counter against the threads, when all of them have been counted. -/
structure IdleCounts (s : Threadpool Task) : Prop where
  balance : s.idlThreadCnt = s.tpPool.length - s.busyWorkers
  nonneg : 0 ≤ s.idlThreadCnt
  le : s.idlThreadCnt ≤ s.threadCnt

/-- The counter is in its range if the number of threads is an `int`. -/
theorem Balance.idleCounts (h : s.Balance 0) (length : s.tpPool.length ≤ threadpoolMaxNum) :
    s.IdleCounts := by
  have hbusy : s.busyWorkers ≤ s.tpPool.length := List.countP_le_length
  have hmax : threadpoolMaxNum = 64 := rfl
  have hcnt : s.threadCnt = s.tpPool.length := int32_of_range (by omega) (by omega)
  unfold Balance at h
  constructor
  · unfold idlThreadCnt
    omega
  · unfold idlThreadCnt
    omega
  · rw [hcnt]
    unfold idlThreadCnt
    omega

end Threadpool

/-- What a step of the calls, the workers and the destructor does to the pool. -/
theorem FutureSystem.acts_of_step {s t : FutureSystem E V} {a : FutureAction E V}
    (h : s.step a = some t) : s.pool.Acts t.pool := by
  have hstep := (Option.ite_none_left_eq_some.mp h).2
  cases a with
  | postTask c =>
    obtain ⟨-, rfl⟩ := (Option.ite_none_right_eq_some.mp hstep).imp_right Option.some.inj
    exact .stay
  | post c who =>
    replace hstep : s.postStep c who = some t := hstep
    unfold postStep at hstep
    split at hstep
    · cases hstep
      exact .stay
    · cases hstep
      exact .stay
    · obtain ⟨pool, hpool, rfl⟩ := Option.map_eq_some_iff.mp hstep
      exact .emplace _ pool hpool
    · obtain ⟨pool, hpool, rfl⟩ := Option.map_eq_some_iff.mp hstep
      exact .notify who pool hpool
    all_goals cases hstep
  | worker w outcome =>
    obtain ⟨pool, hpool, hafter⟩ := Option.bind_eq_some_iff.mp hstep
    have hsame : t.pool = pool := by
      split at hafter
      · obtain ⟨u, -, rfl⟩ := Option.map_eq_some_iff.mp hafter
        rfl
      · cases hafter
        rfl
    rw [hsame]
    exact .worker w pool hpool
  | get c =>
    replace hstep : s.getStep c = some t := hstep
    unfold getStep at hstep
    split at hstep
    · split at hstep
      · cases hstep
        exact .stay
      · cases hstep
    · cases hstep
  | destroy =>
    obtain ⟨-, rfl⟩ := (Option.ite_none_right_eq_some.mp hstep).imp_right Option.some.inj
    exact .stay
  | destructor =>
    obtain ⟨⟨pool, pc⟩, hpool, rfl⟩ := Option.map_eq_some_iff.mp hstep
    exact .destructor _ pc pool hpool

/-! ### Construction -/

/-- Where the constructing thread is in `add_thread`; `src/threadpool/threadpool.h:73–98`. -/
inductive BuildPc
  /-- Before the test of the loop, with `size` threads to come. -/
  | test (size : Nat)
  /-- Before `tp_idl_tnum++`. -/
  | count (size : Nat)
  /-- The constructor has returned. -/
  | built
  deriving DecidableEq, Repr

/-- The thread that has been started and not counted yet. -/
def BuildPc.uncounted : BuildPc → Int
  | .count _ => 1
  | .test _ | .built => 0

/-- A pool from the beginning of its constructor on. -/
structure BuildSystem (E V : Type) where
  build : BuildPc
  system : FutureSystem E V

/-- What can happen next. -/
inductive BuildAction (E V : Type)
  /-- The next statement of the constructor. -/
  | build
  /-- The next statement of another thread. -/
  | act (a : FutureAction E V)

namespace BuildSystem

/-- The beginning of the constructor; `none` when its assertion fails;
`src/threadpool/threadpool.h:24–27`. -/
def new (size : Nat) : Option (BuildSystem E V) :=
  if size ≤ threadpoolMaxNum then some ⟨.test size, .init 0⟩ else none

/-- The constructor changes the pool. -/
def setPool (s : BuildSystem E V) (build : BuildPc) (pool : Threadpool Nat) : BuildSystem E V :=
  { build := build, system := { s.system with pool := pool } }

/-- The loop of `add_thread`; `src/threadpool/threadpool.h:75–97`. -/
def buildStep (s : BuildSystem E V) : Option (BuildSystem E V) :=
  let pool := s.system.pool
  match s.build with
  | .test size =>
    if pool.tpPool.length < threadpoolMaxNum ∧ size > 0 then
      some (s.setPool (.count size) { pool with tpPool := pool.tpPool ++ [.head] })
    else some (s.setPool .built pool)
  | .count size =>
    some (s.setPool (.test (size - 1)) { pool with tpIdlTnum := pool.tpIdlTnum + 1 })
  | .built => none

/-- Before the constructor has returned, nobody but the workers is at work on the pool. -/
def admits : BuildPc → FutureAction E V → Bool
  | .built, _ | _, .worker _ _ => true
  | _, _ => false

/-- The step function. -/
def step (s : BuildSystem E V) : BuildAction E V → Option (BuildSystem E V)
  | .build => s.buildStep
  | .act a =>
    if admits s.build a then (s.system.step a).map fun system ↦ { s with system := system }
    else none

/-- Every thread has been counted but one at most, and there will be as many as were asked for. -/
structure Built (n : Nat) (s : BuildSystem E V) : Prop where
  balance : s.system.pool.Balance s.build.uncounted
  small : n ≤ threadpoolMaxNum
  test : ∀ size, s.build = .test size → s.system.pool.tpPool.length + size = n
  count : ∀ size, s.build = .count size →
    0 < size ∧ s.system.pool.tpPool.length + size = n + 1
  built : s.build = .built → s.system.pool.tpPool.length = n

variable {s t s₀ : BuildSystem E V} {n : Nat}

/-- Before the first statement. -/
theorem built_new (h : new n = some s) : Built n s := by
  obtain ⟨hsmall, rfl⟩ := (Option.ite_none_right_eq_some.mp h).imp_right Option.some.inj
  refine ⟨Threadpool.balance_ofSize 0, hsmall, ?_, nofun, nofun⟩
  rintro size ⟨⟩
  exact Nat.zero_add n

/-- The constructor. -/
theorem Built.buildStep (h : Built n s) (ht : s.buildStep = some t) : Built n t := by
  have hbalance := h.balance
  unfold BuildSystem.buildStep at ht
  dsimp only at ht
  split at ht
  · next size at_ =>
    rw [at_] at hbalance
    have hlength := h.test size at_
    have hsmall := h.small
    split at ht
    · next hmore =>
      cases ht
      refine ⟨?_, h.small, nofun, ?_, nofun⟩
      · unfold Threadpool.Balance at hbalance ⊢
        simpa [setPool, Threadpool.busyWorkers, List.countP_append, WorkerPc.busy,
          BuildPc.uncounted] using hbalance
      · rintro _ ⟨⟩
        refine ⟨hmore.2, ?_⟩
        show (_ ++ [WorkerPc.head]).length + size = n + 1
        rw [List.length_append, List.length_singleton]
        omega
    · cases ht
      refine ⟨hbalance, h.small, nofun, nofun, fun _ ↦ ?_⟩
      show s.system.pool.tpPool.length = n
      omega
  · next size at_ =>
    rw [at_] at hbalance
    obtain ⟨hpos, hlength⟩ := h.count size at_
    cases ht
    refine ⟨?_, h.small, ?_, nofun, nofun⟩
    · unfold Threadpool.Balance at hbalance ⊢
      simp only [setPool, Threadpool.busyWorkers, BuildPc.uncounted] at hbalance ⊢
      omega
    · rintro _ ⟨⟩
      show s.system.pool.tpPool.length + (size - 1) = n
      omega
  · cases ht

/-- Every step. -/
theorem Built.step (h : Built n s) {a : BuildAction E V} (ht : s.step a = some t) :
    Built n t := by
  cases a with
  | build => exact h.buildStep ht
  | act a =>
    obtain ⟨-, ht⟩ := Option.ite_none_right_eq_some.mp ht
    obtain ⟨system, hsystem, rfl⟩ := Option.map_eq_some_iff.mp ht
    obtain ⟨hbalance, hlength⟩ := h.balance.acts (FutureSystem.acts_of_step hsystem)
    refine ⟨hbalance, h.small, ?_, ?_, ?_⟩
    · rw [hlength]
      exact h.test
    · rw [hlength]
      exact h.count
    · rw [hlength]
      exact h.built

end BuildSystem

/-- Once the constructor has returned, and whatever the workers have done before, the idle counter
is the number of threads without those between their decrement and their increment, and lies
between 0 and the number of threads. -/
theorem idle_counter_balances {n : Nat} {s₀ s : BuildSystem E V}
    (new : BuildSystem.new n = some s₀) (h : Reach BuildSystem.step s₀ s)
    (built : s.build = .built) :
    s.system.pool.tpPool.length = n ∧ s.system.pool.IdleCounts := by
  have hbuilt : BuildSystem.Built n s :=
    h.invariant (BuildSystem.built_new new) fun _ _ _ hs _ hstep ↦ hs.step hstep
  have hlength := hbuilt.built built
  have hbalance := hbuilt.balance
  rw [built] at hbalance
  exact ⟨hlength, hbalance.idleCounts (by rw [hlength]; exact hbuilt.small)⟩

/-- The first of two workers runs before it is counted; afterwards a task is posted to it that
throws, and it has not put itself back yet. -/
def earlyWorker : List (BuildAction String Nat) :=
  .flatten [[.build, .act (.worker 0 (.ok 0)), .build], .replicate 3 .build,
    [.act (.postTask 0)], .replicate 4 (.act (.post 0 none)),
    .replicate 7 (.act (.worker 0 (.error "thrown")))]

/-- One of the two is idle. -/
theorem one_worker_idle :
    ∃ s₀ s : BuildSystem String Nat, BuildSystem.new 2 = some s₀ ∧
      run BuildSystem.step s₀ earlyWorker = some s ∧
        s.system.pool.tpPool.length = 2 ∧ s.system.pool.IdleCounts := by
  have hrun : (run BuildSystem.step ⟨.test 2, .init 0⟩ earlyWorker).isSome := by decide +kernel
  have hbuilt : ∀ t ∈ run BuildSystem.step ⟨.test 2, .init 0⟩ earlyWorker, t.build = .built := by
    decide +kernel
  obtain ⟨s, hs⟩ := Option.isSome_iff_exists.mp hrun
  have hnew : BuildSystem.new 2 = some (⟨.test 2, .init 0⟩ : BuildSystem String Nat) := rfl
  exact ⟨_, s, hnew, hs, idle_counter_balances hnew (reach_of_run hs) (hbuilt s hs)⟩

end ConcurrentServer.Pool
