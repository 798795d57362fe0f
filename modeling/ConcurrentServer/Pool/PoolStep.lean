import ConcurrentServer.Pool.Shutdown

/-!
# Steps of the pool

What a step of `PoolSystem.step` can do, one constructor for each statement, and what a worker's
step does with `tp_lock`. From this, `tp_lock` excludes, and a worker that is about to block has
found no task.
-/

namespace ConcurrentServer.Pool
open ConcurrentServer.Base

variable {Task : Type}

namespace WorkerPc

/-- The worker holds `tp_lock`. -/
def holds : WorkerPc Task → Bool
  | .pred | .block | .exitTest | .take => true
  | .head | .lock | .blocked _ | .dec _ | .call _ | .inside _ | .inc | .done => false

/-- Blocked without a notification, or about to block. -/
def sleepy : WorkerPc Task → Bool
  | .block | .blocked false => true
  | _ => false

@[simp] theorem holds_notify (pc : WorkerPc Task) : pc.notify.holds = pc.holds := by
  cases pc <;> rfl

/-- Of the notified, only a worker that has not blocked yet falls asleep. -/
theorem sleepy_notify {pc : WorkerPc Task} (h : pc.notify.sleepy = true) : pc = .block := by
  cases pc <;> first | rfl | cases h

/-- Who is about to block holds the lock. -/
theorem holds_or_waiting {pc : WorkerPc Task} (h : pc.sleepy = true) :
    pc = .block ∨ pc = .blocked false := by
  cases pc with
  | block => exact Or.inl rfl
  | blocked notified =>
    cases notified with
    | false => exact Or.inr rfl
    | true => cases h
  | _ => cases h

end WorkerPc

namespace Threadpool

/-! ### The lock -/

/-- What a worker's step from `pc` to `pc'` does with `tp_lock`. -/
inductive LockMove (s t : Threadpool Task) (w : Nat) : WorkerPc Task → WorkerPc Task → Prop
  /-- It takes the lock. -/
  | enter {pc : WorkerPc Task} (before : pc.holds = false) (free : s.tpLock = none)
    (lock : t.tpLock = some w) : LockMove s t w pc .pred
  /-- The predicate was false. -/
  | block (run : s.tpRun = true) (tasks : s.tpTasks = []) (lock : t.tpLock = s.tpLock) :
    LockMove s t w .pred .block
  /-- It blocks and releases the lock. -/
  | wait (lock : t.tpLock = none) : LockMove s t w .block (.blocked false)
  /-- It keeps the lock. -/
  | keep {pc pc' : WorkerPc Task} (before : pc.holds = true) (after : pc'.holds = true)
    (awake : pc'.sleepy = false) (lock : t.tpLock = s.tpLock) : LockMove s t w pc pc'
  /-- It releases the lock. -/
  | leave {pc pc' : WorkerPc Task} (before : pc.holds = true) (after : pc'.holds = false)
    (awake : pc'.sleepy = false) (lock : t.tpLock = none) : LockMove s t w pc pc'
  /-- It has nothing to do with the lock. -/
  | outside {pc pc' : WorkerPc Task} (before : pc.holds = false) (after : pc'.holds = false)
    (awake : pc'.sleepy = false) (lock : t.tpLock = s.tpLock) : LockMove s t w pc pc'

/-- A worker's step, seen from the lock. -/
structure LockStep (s : Threadpool Task) (w : Nat) (t : Threadpool Task)
    (pc pc' : WorkerPc Task) : Prop where
  at_ : s.tpPool[w]? = some pc
  pool : t.tpPool = s.tpPool.set w pc'
  run : t.tpRun = s.tpRun
  tasks : s.tpTasks = [] → t.tpTasks = []
  move : LockMove s t w pc pc'

/-- Every step of a worker is one of these. -/
theorem lockStep_of_workerStep {s t : Threadpool Task} {w : Nat} (h : s.workerStep w = some t) :
    ∃ pc pc', LockStep s w t pc pc' := by
  unfold workerStep at h
  split at h
  · cases h
  · cases h
  · rename_i at_
    cases h
    refine ⟨_, _, at_, rfl, rfl, id, .outside rfl ?_ ?_ rfl⟩
    · split <;> rfl
    · split <;> rfl
  · rename_i at_
    split at h
    · rename_i free
      cases h
      exact ⟨_, _, at_, rfl, rfl, id, .enter rfl free rfl⟩
    · cases h
  · rename_i at_
    split at h
    · rename_i free
      cases h
      exact ⟨_, _, at_, rfl, rfl, id, .enter rfl free rfl⟩
    · cases h
  · rename_i at_
    cases h
    refine ⟨_, _, at_, rfl, rfl, id, ?_⟩
    split
    · exact .keep rfl rfl rfl rfl
    · rename_i hpred
      simp only [Bool.not_eq_true, Bool.or_eq_false_iff, Bool.not_eq_false'] at hpred
      exact .block hpred.1 (List.isEmpty_iff.mp hpred.2) rfl
  · rename_i at_
    cases h
    exact ⟨_, _, at_, rfl, rfl, id, .wait rfl⟩
  · rename_i at_
    split at h
    · cases h
      exact ⟨_, _, at_, rfl, rfl, id, .leave rfl rfl rfl rfl⟩
    · cases h
      exact ⟨_, _, at_, rfl, rfl, id, .keep rfl rfl rfl rfl⟩
  · rename_i at_
    split at h
    · cases h
    · rename_i task rest htasks
      cases h
      refine ⟨_, _, at_, rfl, rfl, ?_, .leave rfl rfl rfl rfl⟩
      intro hempty
      rw [htasks] at hempty
      cases hempty
  · rename_i at_
    cases h
    exact ⟨_, _, at_, rfl, rfl, id, .outside rfl rfl rfl rfl⟩
  · rename_i at_
    cases h
    exact ⟨_, _, at_, rfl, rfl, id, .outside rfl rfl rfl rfl⟩
  · rename_i at_
    cases h
    exact ⟨_, _, at_, rfl, rfl, id, .outside rfl rfl rfl rfl⟩
  · rename_i at_
    cases h
    exact ⟨_, _, at_, rfl, rfl, id, .outside rfl rfl rfl rfl⟩

/-- Whoever is inside a critical section of `tp_lock` is its holder, and who is about to block
has found no task. -/
structure Locked (s : Threadpool Task) : Prop where
  holder : ∀ (w : Nat) pc, s.tpPool[w]? = some pc → pc.holds = true → s.tpLock = some w
  empty : ∀ w : Nat, s.tpPool[w]? = some WorkerPc.block → s.tpTasks = []

variable {s t : Threadpool Task}

/-- Workers that have not begun. -/
theorem locked_ofSize (n : Nat) : (ofSize n : Threadpool Task).Locked := by
  constructor
  · intro w pc hw hheld
    rw [(List.mem_replicate.mp (List.mem_of_getElem? hw)).2] at hheld
    cases hheld
  · intro w hw
    cases (List.mem_replicate.mp (List.mem_of_getElem? hw)).2

/-- While the lock is free, no worker is inside. -/
theorem Locked.outside (h : s.Locked) (free : s.tpLock = none) {w : Nat} {pc : WorkerPc Task}
    (hw : s.tpPool[w]? = some pc) : pc.holds = false := by
  rw [← Bool.not_eq_true]
  intro hheld
  have hholder := h.holder w pc hw hheld
  rw [free] at hholder
  cases hholder

/-- Two workers inside are one. -/
theorem Locked.alone (h : s.Locked) {w w' : Nat} {pc pc' : WorkerPc Task}
    (hw : s.tpPool[w]? = some pc) (hheld : pc.holds = true) (hw' : s.tpPool[w']? = some pc')
    (hheld' : pc'.holds = true) : w = w' := by
  have hholder := h.holder w pc hw hheld
  rw [h.holder w' pc' hw' hheld'] at hholder
  exact (Option.some.inj hholder).symm

/-- An insertion finds nobody inside. -/
theorem Locked.emplace (h : s.Locked) {task : Task} (ht : s.emplace task = some t) :
    t.Locked := by
  unfold Threadpool.emplace at ht
  split at ht
  · rename_i free
    cases ht
    refine ⟨h.holder, ?_⟩
    intro w hw
    have hout := h.outside free hw
    cases hout
  · cases ht

/-- A worker. -/
theorem Locked.workerStep (h : s.Locked) {w : Nat} (ht : s.workerStep w = some t) : t.Locked := by
  obtain ⟨pc, pc', hw⟩ := lockStep_of_workerStep ht
  have hother : ∀ w' pc₁, w' ≠ w → t.tpPool[w']? = some pc₁ → s.tpPool[w']? = some pc₁ := by
    intro w' pc₁ hne hw'
    rw [hw.pool, getElem?_setThread hw.at_, if_neg hne] at hw'
    exact hw'
  have hself : ∀ pc₁, t.tpPool[w]? = some pc₁ → pc₁ = pc' := by
    intro pc₁ hw'
    rw [hw.pool, getElem?_setThread hw.at_, if_pos rfl] at hw'
    exact (Option.some.inj hw').symm
  constructor
  · intro w' pc₁ hw' hheld
    by_cases hne : w' = w
    · rw [hne] at hw' ⊢
      rw [hself pc₁ hw'] at hheld
      cases hw.move with
      | enter before free lock => exact lock
      | block run tasks lock =>
        rw [lock]
        exact h.holder w .pred hw.at_ rfl
      | keep before after awake lock =>
        rw [lock]
        exact h.holder w pc hw.at_ before
      | wait lock => cases hheld
      | leave before after awake lock | outside before after awake lock =>
        rw [after] at hheld
        cases hheld
    · have hold := hother w' pc₁ hne hw'
      have hholder := h.holder w' pc₁ hold hheld
      cases hw.move with
      | enter before free lock =>
        rw [free] at hholder
        cases hholder
      | block run tasks lock | keep before after awake lock | outside before after awake lock =>
        rw [lock]
        exact hholder
      | wait lock => exact absurd (h.alone hold hheld hw.at_ rfl) hne
      | leave before after awake lock => exact absurd (h.alone hold hheld hw.at_ before) hne
  · intro w' hw'
    apply hw.tasks
    by_cases hne : w' = w
    · rw [hne] at hw'
      have hblock := hself .block hw'
      cases hw.move with
      | block run tasks lock => exact tasks
      | enter | wait => cases hblock
      | keep before after awake lock | leave before after awake lock
      | outside before after awake lock =>
        rw [← hblock] at awake
        cases awake
    · exact h.empty w' (hother w' .block hne hw')

/-- A notification moves blocked workers only, and marks them. -/
structure Woken (s t : Threadpool Task) : Prop where
  same : t = { s with tpPool := t.tpPool }
  places : ∀ (w : Nat) pc, t.tpPool[w]? = some pc →
    s.tpPool[w]? = some pc ∨ pc = .blocked true ∧ ∃ b, s.tpPool[w]? = some (.blocked b)
  length : t.tpPool.length = s.tpPool.length

/-- `notify_all`. -/
theorem woken_notifyAll (s : Threadpool Task) : Woken s s.notifyAll := by
  refine ⟨rfl, ?_, List.length_map _⟩
  intro w pc hw
  change (s.tpPool.map WorkerPc.notify)[w]? = some pc at hw
  rw [List.getElem?_map, Option.map_eq_some_iff] at hw
  obtain ⟨pc₀, hpc₀, rfl⟩ := hw
  cases pc₀ with
  | blocked b => exact Or.inr ⟨rfl, b, hpc₀⟩
  | _ => exact Or.inl hpc₀

/-- `notify_one`. -/
theorem woken_notifyOne {who : Option Nat} (h : s.notifyOne who = some t) : Woken s t := by
  unfold notifyOne at h
  split at h
  · rename_i w
    split at h
    · rename_i at_
      cases h
      refine ⟨rfl, ?_, List.length_set⟩
      intro w' pc hw'
      change (s.tpPool.set w (.blocked true))[w']? = some pc at hw'
      rw [getElem?_setThread at_] at hw'
      by_cases hne : w' = w
      · rw [if_pos hne] at hw'
        rw [hne]
        exact Or.inr ⟨(Option.some.inj hw').symm, false, at_⟩
      · rw [if_neg hne] at hw'
        exact Or.inl hw'
    · cases h
  · split at h
    · cases h
    · cases h
      exact ⟨rfl, fun w pc hw ↦ Or.inl hw, rfl⟩

/-- A notification. -/
theorem Locked.woken (h : s.Locked) (ht : Woken s t) : t.Locked := by
  constructor
  · intro w pc hw hheld
    rw [ht.same]
    cases ht.places w pc hw with
    | inl hold => exact h.holder w pc hold hheld
    | inr hblocked =>
      rw [hblocked.1] at hheld
      cases hheld
  · intro w hw
    rw [ht.same]
    cases ht.places w .block hw with
    | inl hold => exact h.empty w hold
    | inr hblocked => cases hblocked.1

end Threadpool

namespace PoolSystem

/-! ### Steps -/

/-- The statements of the threads at work on a pool. -/
inductive Step (s : PoolSystem) : PoolAction → PoolSystem → Prop
  | postTask (c : Nat) (at_ : s.posts c = .idle) : Step s (.postTask c) (s.setPost c .testRun)
  | testRun (c : Nat) (who : Option Nat) (at_ : s.posts c = .testRun) :
    Step s (.post c who) (s.setPost c (if s.pool.tpRun then .emplace else .threw))
  | emplace (c : Nat) (who : Option Nat) (pool : Threadpool Nat) (at_ : s.posts c = .emplace)
    (emplaced : s.pool.emplace c = some pool) :
    Step s (.post c who) { s.setPost c .notify with pool := pool }
  | notify (c : Nat) (who : Option Nat) (pool : Threadpool Nat) (at_ : s.posts c = .notify)
    (notified : s.pool.notifyOne who = some pool) :
    Step s (.post c who) { s.setPost c .returned with pool := pool }
  | worker (w : Nat) (pool : Threadpool Nat) (moved : s.pool.workerStep w = some pool) :
    Step s (.worker w) { s with pool := pool }
  | destroy (at_ : s.destructor = .idle) :
    Step s .destroy
      { s with destructor := .stop, postedBefore := fun c ↦ s.posts c == .returned }
  | stop (at_ : s.destructor = .stop) :
    Step s .destructor
      { s with destructor := .notify, pool := { s.pool with tpRun := false } }
  | notifyAll (at_ : s.destructor = .notify) :
    Step s .destructor { s with destructor := .join 0, pool := s.pool.notifyAll }
  | join (k : Nat) (pc : DestructorPc) (at_ : s.destructor = .join k)
    (after : pc = .join (k + 1) ∨ pc = .returned) :
    Step s .destructor { s with destructor := pc }

variable {s t : PoolSystem} {a : PoolAction}

/-- Steps of a call of `post_task`. -/
theorem step_of_postStep {c : Nat} {who : Option Nat} (h : s.postStep c who = some t) :
    Step s (.post c who) t := by
  unfold postStep at h
  split at h
  · rename_i at_
    cases h
    exact .testRun c who at_
  · rename_i at_
    obtain ⟨pool, hpool, rfl⟩ := Option.map_eq_some_iff.mp h
    exact .emplace c who pool at_ hpool
  · rename_i at_
    obtain ⟨pool, hpool, rfl⟩ := Option.map_eq_some_iff.mp h
    exact .notify c who pool at_ hpool
  all_goals cases h

/-- Steps of the destructor. -/
theorem step_of_destructorStep (h : s.destructorStep = some t) : Step s .destructor t := by
  obtain ⟨⟨pool, pc⟩, hpool, rfl⟩ := Option.map_eq_some_iff.mp h
  unfold Threadpool.destructorStep at hpool
  split at hpool
  · rename_i at_
    cases hpool
    exact .stop at_
  · rename_i at_
    cases hpool
    exact .notifyAll at_
  · rename_i k at_
    split at hpool
    · cases hpool
      exact .join k .returned at_ (Or.inr rfl)
    · cases hpool
      exact .join k (.join (k + 1)) at_ (Or.inl rfl)
    · cases hpool
  · cases hpool
  · cases hpool

/-- Every step is one of these. -/
theorem step_inversion (h : s.step a = some t) : Step s a t := by
  unfold step at h
  split at h
  · cases h
  cases a with
  | postTask c =>
    simp only [Option.ite_none_right_eq_some, Option.some.injEq] at h
    obtain ⟨at_, rfl⟩ := h
    exact .postTask c at_
  | post c who => exact step_of_postStep h
  | worker w =>
    obtain ⟨pool, hpool, rfl⟩ := Option.map_eq_some_iff.mp h
    exact .worker w pool hpool
  | destroy =>
    simp only [Option.ite_none_right_eq_some, Option.some.injEq] at h
    obtain ⟨at_, rfl⟩ := h
    exact .destroy at_
  | destructor => exact step_of_destructorStep h

/-- Every step keeps the exclusion. -/
theorem locked_step (h : s.pool.Locked) (hstep : Step s a t) : t.pool.Locked := by
  cases hstep with
  | postTask | testRun | destroy | join => exact h
  | emplace c who pool at_ emplaced => exact h.emplace emplaced
  | notify c who pool at_ notified => exact h.woken (Threadpool.woken_notifyOne notified)
  | worker w pool moved => exact h.workerStep moved
  | stop at_ => exact ⟨h.holder, h.empty⟩
  | notifyAll at_ => exact h.woken s.pool.woken_notifyAll

/-- Every step keeps the number of workers. -/
theorem length_step (hstep : Step s a t) : t.pool.tpPool.length = s.pool.tpPool.length := by
  cases hstep with
  | postTask | testRun | destroy | stop | join => rfl
  | emplace c who pool at_ emplaced =>
    show pool.tpPool.length = _
    unfold Threadpool.emplace at emplaced
    split at emplaced <;> cases emplaced
    rfl
  | notify c who pool at_ notified => exact (Threadpool.woken_notifyOne notified).length
  | worker w pool moved =>
    obtain ⟨pc, pc', hw⟩ := Threadpool.lockStep_of_workerStep moved
    show pool.tpPool.length = _
    rw [hw.pool, List.length_set]
  | notifyAll at_ => exact s.pool.woken_notifyAll.length

/-- The pool has as many workers as it was made with. -/
theorem length_of_reach {n : Nat} (h : Reach step (init n) s) : s.pool.tpPool.length = n := by
  apply h.invariant (P := fun s ↦ s.pool.tpPool.length = n) List.length_replicate
  intro s a t hs _ hstep
  rw [length_step (step_inversion hstep)]
  exact hs

/-- `tp_lock` excludes in every reached state. -/
theorem locked_of_reach {n : Nat} (h : Reach step (init n) s) : s.pool.Locked := by
  apply h.invariant (P := fun s ↦ s.pool.Locked) (Threadpool.locked_ofSize n)
  intro s a t hs _ hstep
  exact locked_step hs (step_inversion hstep)

end PoolSystem

end ConcurrentServer.Pool
