import ConcurrentServer.Pool.Executions
import ConcurrentServer.Pool.Wakeups
import Mathlib.Algebra.Order.BigOperators.Group.List
import Mathlib.Algebra.Order.Ring.Nat

/-!
# What a stopped pool still does

`src/threadpool/threadpool.h:28–36, 73–98`. Once `tp_run` is cleared a worker takes one more task
if it is past the test of its loop's head, and ends. So the workers and the destructor execute
few statements from then on, and of the queued tasks just the first are executed, one for each such
worker.
-/

namespace ConcurrentServer.Pool
open ConcurrentServer.Base

variable {Task : Type}

/-- The statements that a worker executes at most once `tp_run` is cleared. -/
def WorkerPc.remaining : WorkerPc Task → Nat
  | .done => 0
  | .head => 1
  | .inc => 2
  | .inside _ => 3
  | .call _ => 4
  | .dec _ => 5
  | .take => 6
  | .exitTest => 7
  | .pred => 8
  | .lock | .blocked _ => 9
  | .block => 10

/-- The statements that the destructor still executes. -/
def DestructorPc.remaining (workers : Nat) : DestructorPc → Nat
  | .notify => workers + 2
  | .join k => workers + 1 - k
  | .idle | .stop | .returned => 0

/-- A statement of a worker or of the destructor. -/
def PoolAction.works : PoolAction → Bool
  | .worker _ | .destructor => true
  | .postTask _ | .post _ _ | .destroy => false

namespace Threadpool

variable {s t : Threadpool Task}

/-- Once `tp_run` is cleared, each statement brings a worker closer to its end. -/
theorem remaining_lt {w : Nat} (h : s.workerStep w = some t) (stop : s.tpRun = false) :
    ∃ pc pc', s.tpPool[w]? = some pc ∧ t.tpPool = s.tpPool.set w pc' ∧
      pc'.remaining < pc.remaining := by
  unfold workerStep at h
  split at h
  · cases h
  · cases h
  · rename_i at_
    rw [stop] at h
    cases h
    exact ⟨_, _, at_, rfl, by simp [WorkerPc.remaining]⟩
  · rename_i at_
    split at h
    · cases h
      exact ⟨_, _, at_, rfl, by simp [WorkerPc.remaining]⟩
    · cases h
  · rename_i at_
    split at h
    · cases h
      exact ⟨_, _, at_, rfl, by simp [WorkerPc.remaining]⟩
    · cases h
  · rename_i at_
    rw [stop] at h
    cases h
    exact ⟨_, _, at_, rfl, by simp [WorkerPc.remaining]⟩
  · rename_i at_
    cases h
    exact ⟨_, _, at_, rfl, by simp [WorkerPc.remaining]⟩
  · rename_i at_
    split at h
    · cases h
      exact ⟨_, _, at_, rfl, by simp [WorkerPc.remaining]⟩
    · cases h
      exact ⟨_, _, at_, rfl, by simp [WorkerPc.remaining]⟩
  · rename_i at_
    split at h
    · cases h
    · cases h
      exact ⟨_, _, at_, rfl, by simp [WorkerPc.remaining]⟩
  · rename_i at_
    cases h
    exact ⟨_, _, at_, rfl, by simp [WorkerPc.remaining]⟩
  · rename_i at_
    cases h
    exact ⟨_, _, at_, rfl, by simp [WorkerPc.remaining]⟩
  · rename_i at_
    cases h
    exact ⟨_, _, at_, rfl, by simp [WorkerPc.remaining]⟩
  · rename_i at_
    cases h
    exact ⟨_, _, at_, rfl, by simp [WorkerPc.remaining]⟩

/-- How many tasks have been taken, or have a worker that will come for one. -/
def claimed (s : Threadpool Task) : Nat := s.taken.length + s.tpPool.countP WorkerPc.ready

/-- Once `tp_run` is cleared a worker gives up its turn only when the queue is empty. -/
theorem claimed_workerStep {w : Nat} (h : s.workerStep w = some t) (stop : s.tpRun = false) :
    t.claimed = s.claimed ∨ s.tpTasks = [] ∧ t.taken = s.taken ∧ t.claimed ≤ s.claimed := by
  obtain ⟨pc, pc', hw⟩ := workerStep_inversion h
  have hcount := countP_setThread WorkerPc.ready hw.at_ pc'
  rw [← hw.pool] at hcount
  unfold claimed
  cases hw.move with
  | stay task tasks taken finished enters leaves =>
    have henters : pc'.ready = true → pc.ready = true := fun hready ↦
      (enters hready).resolve_right (by rw [stop]; exact Bool.false_ne_true)
    rw [taken]
    by_cases hready : pc.ready = true
    · rw [if_pos hready] at hcount
      rcases leaves hready with hready' | hempty
      · rw [if_pos hready'] at hcount
        omega
      · refine Or.inr ⟨hempty, rfl, ?_⟩
        split at hcount
        · omega
        · omega
    · rw [if_neg hready, if_neg (mt henters hready)] at hcount
      omega
  | take task before after tasks taken finished =>
    rw [before, after] at hcount
    change _ + 1 = _ + 0 at hcount
    rw [taken, List.length_append, List.length_singleton]
    omega
  | finish task before after tasks taken finished =>
    rw [before, after] at hcount
    change _ + 0 = _ + 0 at hcount
    rw [taken]
    omega

/-- A notification. -/
theorem Notified.claimed (h : Notified s t) : t.claimed = s.claimed := by
  have htaken : t.taken = s.taken := by rw [h.same]
  unfold Threadpool.claimed
  rw [htaken, h.ready]

/-- An insertion. -/
theorem claimed_emplace {task : Task} (h : s.emplace task = some t) : t.claimed = s.claimed := by
  unfold emplace at h
  split at h
  · cases h
    rfl
  · cases h

/-- A notification leaves the workers as many statements as before. -/
theorem Woken.remaining (h : Woken s t) :
    t.tpPool.map WorkerPc.remaining = s.tpPool.map WorkerPc.remaining := by
  apply List.ext_getElem?
  intro w
  rw [List.getElem?_map, List.getElem?_map]
  cases ht : t.tpPool[w]? with
  | none =>
    have hnone : s.tpPool[w]? = none := by
      rw [List.getElem?_eq_none_iff] at ht ⊢
      rw [← h.length]
      exact ht
    rw [hnone]
  | some pc =>
    rcases h.places w pc ht with hold | ⟨rfl, b, hold⟩
    · rw [hold]
    · rw [hold]
      rfl

end Threadpool

namespace PoolSystem

variable {s t : PoolSystem} {a : PoolAction} {n : Nat}

/-- The pool without the note of the calls that had returned when the destructor began. -/
def forget (s : PoolSystem) : PoolSystem := { s with postedBefore := fun _ ↦ false }

/-- No step depends on the note. -/
theorem map_forget_step (s : PoolSystem) (a : PoolAction) :
    (s.forget.step a).map forget = (s.step a).map forget := by
  have hposts (c : Nat) : s.forget.posts c = s.posts c := rfl
  have hdestructor : s.forget.destructor = s.destructor := rfl
  unfold step
  rw [hdestructor]
  by_cases live : s.destructor = .returned
  · rw [if_pos live, if_pos live]
  rw [if_neg live, if_neg live]
  cases a with
  | postTask c =>
    simp only [hposts]
    split <;> rfl
  | post c who =>
    show Option.map forget (s.forget.postStep c who) = Option.map forget (s.postStep c who)
    unfold postStep
    rw [hposts]
    cases s.posts c with
    | idle | testRun | returned | threw => rfl
    | emplace | notify =>
      rw [Option.map_map, Option.map_map]
      rfl
  | worker w =>
    rw [Option.map_map, Option.map_map]
    rfl
  | destroy =>
    dsimp only
    split <;> rfl
  | destructor =>
    show Option.map forget (s.forget.destructorStep) = _
    unfold destructorStep
    rw [Option.map_map, Option.map_map]
    rfl

/-- Without the note nothing is said about the tasks that are left. -/
theorem Kept.forget (h : s.Kept) : s.forget.Kept :=
  ⟨h.inserted, h.queued, h.held, fun _ hbefore ↦ absurd hbefore Bool.false_ne_true, h.run,
    fun _ _ _ ↦ rfl, h.joined, h.ended⟩

/-- The rest of what the pool keeps holds in every run, also where `tp_run` is cleared late. -/
theorem kept_of_reach (h : Reach step (init n) s) : s.forget.Kept := by
  apply h.invariant (P := fun s ↦ s.forget.Kept) (kept_init n).forget
  intro s a t hs _ hstep
  have hmap := map_forget_step s a
  rw [hstep, Option.map_some] at hmap
  obtain ⟨u, hu, hforget⟩ := Option.map_eq_some_iff.mp hmap
  have hok : s.forget.StopsInTime a := by
    cases a with
    | destructor =>
      intro _ _ _
      rfl
    | _ => trivial
  rw [← hforget]
  exact (hs.step hok hu).forget

/-! ### How many statements -/

/-- The statements that the workers and the destructor execute at most from here on. -/
def workload (s : PoolSystem) : Nat :=
  (s.pool.tpPool.map WorkerPc.remaining).sum + s.destructor.remaining s.pool.tpPool.length

/-- The destructor waits for a worker of the pool, or has waited for all. -/
theorem Kept.join_le (h : s.Kept) {k : Nat} (at_ : s.destructor = .join k) :
    k ≤ s.pool.tpPool.length := by
  by_contra hgt
  have hdone := h.joined k at_ s.pool.tpPool.length (by omega)
  rw [List.getElem?_eq_none (Nat.le_refl _)] at hdone
  cases hdone

/-- A stopped pool stays stopped. -/
theorem stopped_step (hstep : Step s a t) (stopped : s.destructor.stopped = true) :
    t.destructor.stopped = true := by
  cases hstep with
  | postTask | testRun | emplace | notify | worker => exact stopped
  | destroy at_ | stop at_ =>
    rw [at_] at stopped
    cases stopped
  | notifyAll at_ => rfl
  | join k pc at_ after => rcases after with rfl | rfl <;> rfl

/-- Each statement of a worker or of the destructor brings the pool closer to its end, and no
other statement puts it off. -/
theorem workload_step (h : s.forget.Kept) (h' : t.forget.Kept)
    (stopped : s.destructor.stopped = true) (hstep : Step s a t) :
    (if a.works then 1 else 0) + t.workload ≤ s.workload := by
  have hrun : s.pool.tpRun = false := by
    have hcleared : s.pool.tpRun = !s.destructor.stopped := h.run
    rw [hcleared, stopped]
    rfl
  have hlength := length_step hstep
  unfold workload
  rw [hlength]
  cases hstep with
  | postTask | testRun => exact Nat.le_of_eq (Nat.zero_add _)
  | emplace c who pool at_ emplaced =>
    show 0 + ((pool.tpPool.map WorkerPc.remaining).sum + s.destructor.remaining _) ≤ _
    rw [(Threadpool.executed_emplace emplaced).1, Nat.zero_add]
  | notify c who pool at_ notified =>
    show 0 + ((pool.tpPool.map WorkerPc.remaining).sum + s.destructor.remaining _) ≤ _
    rw [(Threadpool.woken_notifyOne notified).remaining, Nat.zero_add]
  | worker w pool moved =>
    obtain ⟨pc, pc', hat, hpool, hlt⟩ := Threadpool.remaining_lt moved hrun
    have hsum := sum_map_setThread WorkerPc.remaining hat pc'
    rw [← hpool] at hsum
    show 1 + ((pool.tpPool.map WorkerPc.remaining).sum + s.destructor.remaining _) ≤ _
    omega
  | destroy at_ | stop at_ =>
    rw [at_] at stopped
    cases stopped
  | notifyAll at_ =>
    show 1 + ((s.pool.notifyAll.tpPool.map WorkerPc.remaining).sum + (_ + 1 - 0)) ≤ _
    rw [s.pool.woken_notifyAll.remaining, at_]
    show _ ≤ _ + (s.pool.tpPool.length + 2)
    omega
  | join k pc at_ after =>
    have hle : k ≤ s.pool.tpPool.length := h.join_le at_
    show 1 + ((s.pool.tpPool.map WorkerPc.remaining).sum + pc.remaining _) ≤ _
    rw [at_]
    show _ ≤ _ + (s.pool.tpPool.length + 1 - k)
    rcases after with rfl | rfl
    · have hnext : k + 1 ≤ s.pool.tpPool.length := h'.join_le rfl
      show 1 + (_ + (s.pool.tpPool.length + 1 - (k + 1))) ≤ _
      omega
    · show 1 + (_ + 0) ≤ _
      omega

/-- A whole run. -/
theorem workload_run {as : List PoolAction} (h : Reach step (init n) s)
    (stopped : s.destructor.stopped = true) (hrun : run step s as = some t) :
    as.countP PoolAction.works + t.workload ≤ s.workload := by
  induction as generalizing s with
  | nil =>
    cases hrun
    exact Nat.le_of_eq (Nat.zero_add _)
  | cons a rest ih =>
    obtain ⟨u, hstep, hrest⟩ := Option.bind_eq_some_iff.mp hrun
    have hreach := h.tail a trivial hstep
    have hmove := step_inversion hstep
    have hone := workload_step (kept_of_reach h) (kept_of_reach hreach) stopped hmove
    have hmore := ih hreach (stopped_step hmove stopped) hrest
    rw [List.countP_cons]
    omega

/-- Ten statements for each worker, one to join it, and two more. -/
theorem workload_le (h : Reach step (init n) s) : s.workload ≤ 11 * n + 2 := by
  have hlength := length_of_reach h
  have hone : ∀ pc ∈ s.pool.tpPool.map WorkerPc.remaining, pc ≤ 10 := by
    intro m hm
    obtain ⟨pc, -, rfl⟩ := List.mem_map.mp hm
    cases pc <;> simp [WorkerPc.remaining]
  have hsum := List.sum_le_card_nsmul _ 10 hone
  rw [List.length_map, hlength, Nat.nsmul_eq_mul] at hsum
  have hdestructor : s.destructor.remaining n ≤ n + 2 := by
    cases s.destructor <;> simp only [DestructorPc.remaining] <;> omega
  unfold workload
  rw [hlength]
  omega

/-! ### Which tasks -/

/-- What a stopped pool has done between two states. -/
structure Since (s t : PoolSystem) : Prop where
  stopped : t.destructor.stopped = true
  inserted : s.pool.inserted.length ≤ t.pool.inserted.length
  /-- No call inserts that had not passed its test before. -/
  refused : (∀ c, (s.posts c).toEmplace = false) →
    (∀ c, (t.posts c).toEmplace = false) ∧ t.pool.inserted = s.pool.inserted
  most : t.pool.claimed ≤ s.pool.claimed
  least : min s.pool.claimed s.pool.inserted.length ≤ t.pool.claimed

/-- Nothing has been done yet. -/
theorem since_self (stopped : s.destructor.stopped = true) : s.Since s :=
  ⟨stopped, Nat.le_refl _, fun h ↦ ⟨h, rfl⟩, Nat.le_refl _, by omega⟩

/-- No task is taken. -/
theorem Since.keep {u : PoolSystem} (h : s.Since t) (stopped : u.destructor.stopped = true)
    (inserted : t.pool.inserted.length ≤ u.pool.inserted.length)
    (refused : (∀ c, (t.posts c).toEmplace = false) →
      (∀ c, (u.posts c).toEmplace = false) ∧ u.pool.inserted = t.pool.inserted)
    (claimed : u.pool.claimed = t.pool.claimed) : s.Since u := by
  refine ⟨stopped, h.inserted.trans inserted, fun hnone ↦ ?_, ?_, ?_⟩
  · obtain ⟨hposts, hsame⟩ := h.refused hnone
    obtain ⟨hposts', hsame'⟩ := refused hposts
    exact ⟨hposts', hsame'.trans hsame⟩
  · rw [claimed]
    exact h.most
  · rw [claimed]
    exact h.least

/-- A call moves on that is not about to insert. -/
theorem toEmplace_update {posts : Nat → PostPc} (h : ∀ c, (posts c).toEmplace = false) {c : Nat}
    {pc : PostPc} (hpc : pc.toEmplace = false) (c' : Nat) :
    (Function.update posts c pc c').toEmplace = false := by
  by_cases hc : c' = c
  · rw [hc, Function.update_self]
    exact hpc
  · rw [Function.update_of_ne hc]
    exact h c'

/-- A worker. -/
theorem Since.worker (h : s.Since t) (ht : t.pool.Conserved) (cleared : t.pool.tpRun = false)
    {w : Nat} {pool : Threadpool Nat} (moved : t.pool.workerStep w = some pool) :
    s.Since { t with pool := pool } := by
  obtain ⟨pc, pc', hw⟩ := Threadpool.workerStep_inversion moved
  have hmost := h.most
  have hleast := h.least
  refine ⟨h.stopped, by show _ ≤ pool.inserted.length; rw [hw.inserted]; exact h.inserted,
    fun hnone ↦ ⟨(h.refused hnone).1, hw.inserted.trans (h.refused hnone).2⟩, ?_, ?_⟩
  · show pool.claimed ≤ _
    rcases Threadpool.claimed_workerStep moved cleared with hsame | ⟨-, -, hle⟩
    · omega
    · omega
  · show _ ≤ pool.claimed
    rcases Threadpool.claimed_workerStep moved cleared with hsame | ⟨hempty, htaken, -⟩
    · omega
    · -- The queue is empty: all that was inserted has been taken.
      have hall := congrArg List.length ht.queued
      rw [hempty, List.append_nil] at hall
      have hinserted := h.inserted
      unfold Threadpool.claimed at *
      rw [htaken]
      omega

/-- Every step. -/
theorem Since.step (h : s.Since t) (ht : t.forget.Kept) {u : PoolSystem} (hstep : Step t a u) :
    s.Since u := by
  have hstopped := stopped_step hstep h.stopped
  have hcleared : t.pool.tpRun = false := by
    have hrun : t.pool.tpRun = !t.destructor.stopped := ht.run
    rw [hrun, h.stopped]
    rfl
  cases hstep with
  | postTask c at_ =>
    exact h.keep hstopped (Nat.le_refl _) (fun hnone ↦ ⟨toEmplace_update hnone rfl, rfl⟩) rfl
  | testRun c who at_ =>
    refine h.keep hstopped (Nat.le_refl _) (fun hnone ↦ ⟨toEmplace_update hnone ?_, rfl⟩) rfl
    rw [hcleared]
    rfl
  | emplace c who pool at_ emplaced =>
    have hinserted : pool.inserted.length = t.pool.inserted.length + 1 := by
      unfold Threadpool.emplace at emplaced
      split at emplaced
      · cases emplaced
        exact List.length_append
      · cases emplaced
    refine h.keep hstopped ?_ (fun hnone ↦ ?_) (Threadpool.claimed_emplace emplaced)
    · show _ ≤ pool.inserted.length
      omega
    · have hother := hnone c
      rw [at_] at hother
      cases hother
  | notify c who pool at_ notified =>
    have hn := Threadpool.notified_notifyOne notified
    have hinserted : pool.inserted = t.pool.inserted := by rw [hn.same]
    exact h.keep hstopped (by show _ ≤ pool.inserted.length; rw [hinserted])
      (fun hnone ↦ ⟨toEmplace_update hnone rfl, hinserted⟩) hn.claimed
  | worker w pool moved => exact h.worker ht.conserved hcleared moved
  | destroy at_ | stop at_ =>
    have hbefore := h.stopped
    rw [at_] at hbefore
    cases hbefore
  | notifyAll at_ =>
    exact h.keep hstopped (Nat.le_refl _) (fun hnone ↦ ⟨hnone, rfl⟩)
      (Threadpool.notified_notifyAll t.pool).claimed
  | join k pc at_ after => exact h.keep hstopped (Nat.le_refl _) (fun hnone ↦ ⟨hnone, rfl⟩) rfl

end PoolSystem

/-- What a pool still does when it has been stopped. -/
structure WindsDown (n : Nat) (s : PoolSystem) (as : List PoolAction) (t : PoolSystem) : Prop where
  /-- The workers and the destructor execute few statements, whatever is posted. -/
  statements : as.countP PoolAction.works ≤ 11 * n + 2
  /-- Tasks are taken in the order of the queue. -/
  order : t.pool.taken <+: t.pool.inserted
  /-- Each worker past the test of its loop's head takes one task at most. -/
  most : t.pool.taken.length ≤ s.pool.taken.length + s.readyWorkers
  /-- When the pool is gone each has taken one, unless the queue was empty. -/
  least : t.destructor = .returned →
    min (s.pool.taken.length + s.readyWorkers) s.pool.inserted.length ≤ t.pool.taken.length
  /-- If no call was about to insert a task, no further task has been taken. -/
  precise : t.destructor = .returned → (∀ c, (s.posts c).toEmplace = false) →
    t.pool.taken.length = min (s.pool.taken.length + s.readyWorkers) s.pool.inserted.length
  /-- What was taken has been executed. -/
  executed : t.destructor = .returned → t.pool.finished.Perm t.pool.taken

/-- However calls, workers and the destructor interleave after `tp_run` has been cleared. -/
theorem pool_winds_down {n : Nat} {s t : PoolSystem} {as : List PoolAction}
    (h : Reach PoolSystem.step (.init n) s) (stopped : s.destructor.stopped = true)
    (hrun : run PoolSystem.step s as = some t) : WindsDown n s as t := by
  have hlater : Reach PoolSystem.step s t := reach_of_run hrun
  have hreach : Reach PoolSystem.step (.init n) t := h.trans hlater
  have hkept : t.forget.Kept := PoolSystem.kept_of_reach hreach
  have hqueued : t.pool.inserted = t.pool.taken ++ t.pool.tpTasks := hkept.queued
  have hsince : s.Since t := by
    have hboth : Reach PoolSystem.step (.init n) t ∧ s.Since t := by
      apply hlater.invariant (P := fun t ↦ Reach PoolSystem.step (.init n) t ∧ s.Since t)
      · exact ⟨h, PoolSystem.since_self stopped⟩
      · intro t a u ht _ hstep
        exact ⟨ht.1.tail a trivial hstep,
          ht.2.step (PoolSystem.kept_of_reach ht.1) (PoolSystem.step_inversion hstep)⟩
    exact hboth.2
  have hmost : t.pool.taken.length + t.readyWorkers ≤ s.pool.taken.length + s.readyWorkers :=
    hsince.most
  have hleast : min (s.pool.taken.length + s.readyWorkers) s.pool.inserted.length ≤
      t.pool.taken.length + t.readyWorkers := hsince.least
  have hnone : t.destructor = .returned → t.readyWorkers = 0 := by
    intro hret
    apply List.countP_eq_zero.mpr
    intro pc hpc
    rw [hkept.ended hret pc hpc]
    exact Bool.false_ne_true
  constructor
  · have hwork := PoolSystem.workload_run h stopped hrun
    have hle := PoolSystem.workload_le h
    omega
  · rw [hqueued]
    exact List.prefix_append _ _
  · omega
  · intro hret
    have hzero := hnone hret
    omega
  · intro hret hposts
    have hzero := hnone hret
    have hall := congrArg List.length hqueued
    rw [(hsince.refused hposts).2, List.length_append] at hall
    omega
  · intro hret
    apply List.perm_iff_count.mpr
    intro c
    have hheld : t.pool.taken.count c =
        t.pool.tpPool.countP (fun pc ↦ pc.task? == some c) + t.pool.finished.count c :=
      hkept.held c
    have hzero : t.pool.tpPool.countP (fun pc ↦ pc.task? == some c) = 0 := by
      apply List.countP_eq_zero.mpr
      intro pc hpc
      rw [hkept.ended hret pc hpc]
      exact Bool.false_ne_true
    omega

/-- Two tasks are queued, and `tp_run` is cleared behind the worker's back. -/
def stopWithTwoQueued : List PoolAction :=
  .flatten [.postTask 0 :: .replicate 3 (.post 0 none), .postTask 1 :: .replicate 3 (.post 1 none),
    [.worker 0, .destroy, .destructor]]

/-- The worker executes its task and ends, and the destructor joins it. -/
def toTheEnd : List PoolAction := .replicate 9 (.worker 0) ++ .replicate 3 .destructor

/-- Of the two tasks the first is executed. -/
theorem first_of_two_executed :
    ∃ s t, run PoolSystem.step (.init 1) stopWithTwoQueued = some s ∧
      run PoolSystem.step s toTheEnd = some t ∧ t.destructor = .returned ∧
      t.pool.finished = [0] ∧ t.pool.tpTasks = [1] ∧ WindsDown 1 s toTheEnd t := by
  have hrun : ((run PoolSystem.step (.init 1) stopWithTwoQueued).bind fun s ↦
      run PoolSystem.step s toTheEnd).isSome := by
    decide +kernel
  have hstopped : ∀ s ∈ run PoolSystem.step (.init 1) stopWithTwoQueued,
      s.destructor.stopped = true := by
    decide +kernel
  have hend : ∀ t ∈ (run PoolSystem.step (.init 1) stopWithTwoQueued).bind fun s ↦
      run PoolSystem.step s toTheEnd, t.destructor = .returned ∧ t.pool.finished = [0] ∧
        t.pool.tpTasks = [1] := by
    decide +kernel
  obtain ⟨t, ht⟩ := Option.isSome_iff_exists.mp hrun
  obtain ⟨hret, hfinished, htasks⟩ := hend t ht
  obtain ⟨s, hs, hst⟩ := Option.bind_eq_some_iff.mp ht
  exact ⟨s, t, hs, hst, hret, hfinished, htasks,
    pool_winds_down (reach_of_run hs) (hstopped s hs) hst⟩

end ConcurrentServer.Pool
