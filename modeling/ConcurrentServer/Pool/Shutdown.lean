import ConcurrentServer.Base.Run
import ConcurrentServer.Pool.Threadpool
import Mathlib.Logic.Function.Basic

/-!
# Posting tasks to a pool and destroying it

`src/threadpool/threadpool.h:28–62`. Any number of calls of `post_task` and one destructor run
beside the workers. A call is named by a number, and its task by the number of the call. Nothing
runs after the destructor has returned.
-/

namespace ConcurrentServer.Pool
open ConcurrentServer.Base

/-- Where a call of `post_task` is. -/
inductive PostPc
  /-- Not called yet. -/
  | idle
  /-- Before the test of `tp_run`. -/
  | testRun
  /-- Before the insertion. -/
  | emplace
  /-- Before `notify_one`. -/
  | notify
  /-- It has returned. -/
  | returned
  /-- It has thrown "post_task on Threadpool has been stopped.". -/
  | threw
  deriving DecidableEq, Repr

/-- The task of the call has been inserted. -/
def PostPc.inserted : PostPc → Bool
  | .notify | .returned => true
  | .idle | .testRun | .emplace | .threw => false

/-- A pool with the calls made on it. -/
structure PoolSystem where
  pool : Threadpool Nat
  posts : Nat → PostPc
  destructor : DestructorPc
  /-- The calls that had returned when the destructor began. -/
  postedBefore : Nat → Bool

/-- What can happen next. -/
inductive PoolAction
  /-- Call `c` is made. -/
  | postTask (c : Nat)
  /-- The next statement of call `c`; `notified` is the worker that `notify_one` reaches. -/
  | post (c : Nat) (notified : Option Nat)
  /-- The next statement of worker `w`. -/
  | worker (w : Nat)
  /-- The destructor begins. -/
  | destroy
  /-- The next statement of the destructor. -/
  | destructor
  deriving DecidableEq, Repr

namespace PoolSystem

/-- A pool of `n` workers on which no call has been made. -/
def init (n : Nat) : PoolSystem := ⟨.ofSize n, fun _ ↦ .idle, .idle, fun _ ↦ false⟩

/-- Call `c` moves on. -/
def setPost (s : PoolSystem) (c : Nat) (pc : PostPc) : PoolSystem :=
  { s with posts := Function.update s.posts c pc }

/-- `post_task`; `src/threadpool/threadpool.h:38–62`. -/
def postStep (s : PoolSystem) (c : Nat) (notified : Option Nat) : Option PoolSystem :=
  match s.posts c with
  | .testRun => some (s.setPost c (if s.pool.tpRun then .emplace else .threw))
  | .emplace => (s.pool.emplace c).map fun pool ↦ { s.setPost c .notify with pool := pool }
  | .notify =>
    (s.pool.notifyOne notified).map fun pool ↦ { s.setPost c .returned with pool := pool }
  | .idle | .returned | .threw => none

/-- `~Threadpool`. -/
def destructorStep (s : PoolSystem) : Option PoolSystem :=
  (s.pool.destructorStep s.destructor).map fun (pool, destructor) ↦
    { s with pool := pool, destructor := destructor }

/-- The step function. -/
def step (s : PoolSystem) (a : PoolAction) : Option PoolSystem :=
  if s.destructor = .returned then none
  else match a with
    | .postTask c => if s.posts c = .idle then some (s.setPost c .testRun) else none
    | .post c notified => s.postStep c notified
    | .worker w => (s.pool.workerStep w).map fun pool ↦ { s with pool := pool }
    | .destroy =>
      if s.destructor = .idle then
        some { s with destructor := .stop, postedBefore := fun c ↦ s.posts c == .returned }
      else none
    | .destructor => s.destructorStep

/-- The number of workers that will take one more task, if there is one. -/
def readyWorkers (s : PoolSystem) : Nat := s.pool.tpPool.countP WorkerPc.ready

/-- When the destructor has returned, each task posted before it began was executed once. -/
def AllExecutedOnce (s : PoolSystem) : Prop :=
  s.destructor = .returned → ∀ c, s.postedBefore c = true → s.pool.finished.count c = 1

/-- The destructor clears `tp_run` only when no task posted before it began lies in the queue
behind as many tasks as there are workers past the test of their loop's head. -/
def StopsInTime (s : PoolSystem) : PoolAction → Prop
  | .destructor => s.destructor = .stop →
    ∀ c ∈ s.pool.tpTasks.drop s.readyWorkers, s.postedBefore c = false
  | _ => True

instance : ∀ (s : PoolSystem) (a : PoolAction), Decidable (s.StopsInTime a)
  | s, .destructor => inferInstanceAs (Decidable (s.destructor = .stop →
      ∀ c ∈ s.pool.tpTasks.drop s.readyWorkers, s.postedBefore c = false))
  | _, .postTask _ | _, .post _ _ | _, .worker _ | _, .destroy =>
    inferInstanceAs (Decidable True)

/-- Each inserted task is queued, in the hands of one worker, or finished, and once `tp_run` is
cleared no earlier task is left for a worker that will not come. -/
structure Kept (s : PoolSystem) : Prop where
  inserted : ∀ c, s.pool.inserted.count c = if (s.posts c).inserted then 1 else 0
  queued : s.pool.inserted = s.pool.taken ++ s.pool.tpTasks
  held : ∀ c, s.pool.taken.count c =
    s.pool.tpPool.countP (fun pc ↦ pc.task? == some c) + s.pool.finished.count c
  before : ∀ c, s.postedBefore c = true → s.posts c = .returned
  run : s.pool.tpRun = !s.destructor.stopped
  left : s.destructor.stopped = true →
    ∀ c ∈ s.pool.tpTasks.drop s.readyWorkers, s.postedBefore c = false
  joined : ∀ k, s.destructor = .join k → ∀ w < k, s.pool.tpPool[w]? = some .done
  ended : s.destructor = .returned → ∀ pc ∈ s.pool.tpPool, pc = .done

variable {s t : PoolSystem} {a : PoolAction}

/-- A fresh pool. -/
theorem kept_init (n : Nat) : (init n).Kept := by
  constructor
  · intro c
    rfl
  · rfl
  · exact (Threadpool.conserved_ofSize n).held
  · intro c hc
    cases hc
  · rfl
  · intro hstop
    cases hstop
  · intro k hk
    cases hk
  · intro hret
    cases hret

/-- The pool conserves its tasks. -/
theorem Kept.conserved (h : s.Kept) : s.pool.Conserved := ⟨h.queued, h.held⟩

/-- Only the place of a call that has not inserted its task changes. -/
theorem Kept.setPost (h : s.Kept) {c : Nat} {pc : PostPc}
    (same : pc.inserted = (s.posts c).inserted) (fresh : s.posts c ≠ .returned) :
    (s.setPost c pc).Kept := by
  refine ⟨?_, h.queued, h.held, ?_, h.run, h.left, h.joined, h.ended⟩
  · intro c'
    show s.pool.inserted.count c' = if (Function.update s.posts c pc c').inserted then 1 else 0
    by_cases hc : c' = c
    · rw [hc, Function.update_self, same]
      exact h.inserted c
    · rw [Function.update_of_ne hc]
      exact h.inserted c'
  · intro c' hc'
    show Function.update s.posts c pc c' = .returned
    have hold := h.before c' hc'
    by_cases hc : c' = c
    · rw [hc] at hold
      exact absurd hold fresh
    · rw [Function.update_of_ne hc]
      exact hold

/-- A notification changes no worker's share. -/
theorem Kept.notified (h : s.Kept) (live : s.destructor ≠ .returned) {pool : Threadpool Nat}
    (hn : s.pool.Notified pool) :
    { s with pool := pool }.Kept := by
  have hsame := hn.same
  constructor
  · intro c
    show pool.inserted.count c = _
    rw [hsame]
    exact h.inserted c
  · exact (h.conserved.notified hn).queued
  · exact (h.conserved.notified hn).held
  · exact h.before
  · show pool.tpRun = !s.destructor.stopped
    rw [hsame]
    exact h.run
  · intro hstop
    show ∀ c ∈ pool.tpTasks.drop (pool.tpPool.countP WorkerPc.ready), s.postedBefore c = false
    rw [hn.ready, hsame]
    exact h.left hstop
  · intro k hk w hw
    exact hn.done w (h.joined k hk w hw)
  · intro hret
    exact absurd hret live

/-- The insertion of a task that no earlier call has inserted. -/
theorem Kept.emplace (h : s.Kept) {c : Nat} {pool : Threadpool Nat} (at_ : s.posts c = .emplace)
    (hpool : s.pool.emplace c = some pool) :
    { s.setPost c .notify with pool := pool }.Kept := by
  have hconserved := h.conserved.emplace hpool
  unfold Threadpool.emplace at hpool
  split at hpool
  · cases hpool
    constructor
    · intro c'
      show (s.pool.inserted ++ [c]).count c' =
        if (Function.update s.posts c .notify c').inserted then 1 else 0
      have hold := h.inserted c'
      rw [List.count_append, hold]
      by_cases hc : c' = c
      · rw [hc, Function.update_self, at_]
        simp [PostPc.inserted]
      · rw [Function.update_of_ne hc, List.count_singleton]
        simp [Ne.symm hc]
    · exact hconserved.queued
    · exact hconserved.held
    · intro c' hc'
      show Function.update s.posts c .notify c' = .returned
      have hold := h.before c' hc'
      by_cases hc : c' = c
      · rw [hc, at_] at hold
        cases hold
      · rw [Function.update_of_ne hc]
        exact hold
    · exact h.run
    · intro hstop c' hc'
      -- the new task is behind all others
      have hmem : c' ∈ s.pool.tpTasks.drop s.readyWorkers ∨ c' = c := by
        have hdrop : (s.pool.tpTasks ++ [c]).drop s.readyWorkers =
            s.pool.tpTasks.drop s.readyWorkers ++
              [c].drop (s.readyWorkers - s.pool.tpTasks.length) := List.drop_append
        have hc'' : c' ∈ (s.pool.tpTasks ++ [c]).drop s.readyWorkers := hc'
        rw [hdrop, List.mem_append] at hc''
        apply hc''.imp_right
        intro hlast
        exact List.mem_singleton.mp (List.mem_of_mem_drop hlast)
      cases hmem with
      | inl hmem => exact h.left hstop c' hmem
      | inr hmem =>
        rw [← Bool.not_eq_true]
        intro htrue
        have hret := h.before c' htrue
        rw [hmem, at_] at hret
        cases hret
    · exact h.joined
    · exact h.ended
  · cases hpool

/-- A call of `post_task`. -/
theorem Kept.postStep (h : s.Kept) (live : s.destructor ≠ .returned) {c : Nat} {who : Option Nat}
    (hstep : s.postStep c who = some t) : t.Kept := by
  unfold PoolSystem.postStep at hstep
  split at hstep
  · rename_i at_
    cases hstep
    apply h.setPost
    · rw [at_]
      split <;> rfl
    · simp [at_]
  · rename_i at_
    obtain ⟨pool, hpool, rfl⟩ := Option.map_eq_some_iff.mp hstep
    exact h.emplace at_ hpool
  · rename_i at_
    obtain ⟨pool, hpool, rfl⟩ := Option.map_eq_some_iff.mp hstep
    have hpost : (s.setPost c .returned).Kept := by
      apply h.setPost
      · rw [at_]
        rfl
      · simp [at_]
    exact hpost.notified live (Threadpool.notified_notifyOne hpool)
  · cases hstep
  · cases hstep
  · cases hstep

/-- Once `tp_run` is cleared, a worker that gives up its turn leaves an empty queue, and one
that uses it takes the task in front. -/
theorem Kept.left_worker (h : s.Kept) {w : Nat} {pool : Threadpool Nat} {pc pc' : WorkerPc Nat}
    (hw : s.pool.WorkerStep w pool pc pc') (hstop : s.destructor.stopped = true) :
    ∀ c ∈ pool.tpTasks.drop (pool.tpPool.countP WorkerPc.ready), s.postedBefore c = false := by
  have hcount := countP_setThread WorkerPc.ready hw.at_ pc'
  have hrun : s.pool.tpRun = false := by rw [h.run, hstop]; rfl
  have hold := h.left hstop
  unfold readyWorkers at hold
  rw [hw.pool]
  cases hw.move with
  | stay task tasks taken finished enters leaves =>
    rw [tasks]
    cases hready : pc.ready with
    | false =>
      have hready' : pc'.ready = false := by
        rw [← Bool.not_eq_true]
        intro htrue
        cases enters htrue with
        | inl hpc => rw [hready] at hpc; cases hpc
        | inr hpc => rw [hrun] at hpc; cases hpc
      rw [hready, hready'] at hcount
      rwa [Nat.add_right_cancel hcount]
    | true =>
      cases leaves hready with
      | inl hready' =>
        rw [hready, hready'] at hcount
        rwa [Nat.add_right_cancel hcount]
      | inr hempty =>
        rw [hempty]
        intro c hc
        rw [List.drop_nil] at hc
        cases hc
  | take task before after tasks taken finished =>
    rw [before, after] at hcount
    rw [← show (s.pool.tpPool.set w pc').countP WorkerPc.ready + 1 =
        s.pool.tpPool.countP WorkerPc.ready from by rw [after]; exact hcount,
      tasks, List.drop_succ_cons] at hold
    exact hold
  | finish task before after tasks taken finished =>
    rw [before, after] at hcount
    rw [tasks, after]
    rwa [Nat.add_right_cancel hcount]

/-- A worker. -/
theorem Kept.worker (h : s.Kept) (live : s.destructor ≠ .returned) {w : Nat}
    {pool : Threadpool Nat} (hstep : s.pool.workerStep w = some pool) :
    { s with pool := pool }.Kept := by
  obtain ⟨pc, pc', hw⟩ := Threadpool.workerStep_inversion hstep
  constructor
  · intro c
    show pool.inserted.count c = _
    rw [hw.inserted]
    exact h.inserted c
  · exact (h.conserved.workerStep hw).queued
  · exact (h.conserved.workerStep hw).held
  · exact h.before
  · show pool.tpRun = !s.destructor.stopped
    rw [hw.run]
    exact h.run
  · exact h.left_worker hw
  · intro k hk w' hw'
    have hold := h.joined k hk w' hw'
    show pool.tpPool[w']? = some .done
    rw [hw.pool, getElem?_setThread hw.at_, if_neg]
    · exact hold
    · intro heq
      rw [heq, hw.at_] at hold
      exact hw.alive (Option.some.inj hold)
  · intro hret
    exact absurd hret live

/-- `tp_run` is cleared in time. -/
theorem Kept.stop (h : s.Kept)
    (inTime : ∀ c ∈ s.pool.tpTasks.drop s.readyWorkers, s.postedBefore c = false) :
    { s with destructor := .notify, pool := { s.pool with tpRun := false } }.Kept := by
  refine ⟨h.inserted, h.queued, h.held, h.before, rfl, fun _ ↦ inTime, ?_, ?_⟩
  · intro k hk
    cases hk
  · intro hret
    cases hret

/-- The destructor goes on after `tp_run` has been cleared. -/
theorem Kept.setDestructor (h : s.Kept) {pc : DestructorPc} (stopped : s.destructor.stopped = true)
    (stopped' : pc.stopped = true)
    (joined : ∀ k, pc = .join k → ∀ w < k, s.pool.tpPool[w]? = some .done)
    (ended : pc = .returned → ∀ pc ∈ s.pool.tpPool, pc = .done) :
    { s with destructor := pc }.Kept := by
  refine ⟨h.inserted, h.queued, h.held, h.before, ?_, fun _ ↦ h.left stopped, joined, ended⟩
  show s.pool.tpRun = !pc.stopped
  rw [h.run, stopped, stopped']

/-- The destructor. -/
theorem Kept.destructorStep (h : s.Kept) (hok : s.StopsInTime .destructor)
    (hstep : s.destructorStep = some t) : t.Kept := by
  obtain ⟨⟨pool, pc⟩, hpool, rfl⟩ := Option.map_eq_some_iff.mp hstep
  unfold Threadpool.destructorStep at hpool
  split at hpool
  · rename_i at_
    cases hpool
    exact h.stop (hok at_)
  · rename_i at_
    cases hpool
    have hn := h.notified (by simp [at_]) s.pool.notified_notifyAll
    apply hn.setDestructor (by show s.destructor.stopped = true; rw [at_]; rfl) rfl
    · intro k hk w hw
      cases hk
      exact absurd hw (Nat.not_lt_zero w)
    · intro hret
      cases hret
  · rename_i k at_
    have hstopped : s.destructor.stopped = true := by rw [at_]; rfl
    split at hpool
    · rename_i hend
      cases hpool
      apply h.setDestructor hstopped rfl
      · intro k' hk'
        cases hk'
      · -- every index below the length of the pool has been joined
        intro _ pc hpc
        obtain ⟨w, hw⟩ := List.getElem?_of_mem hpc
        have hlt : w < k := by
          have hle := List.getElem?_eq_none_iff.mp hend
          have hlt := (List.getElem?_eq_some_iff.mp hw).1
          omega
        have hdone := h.joined k at_ w hlt
        rw [hw] at hdone
        exact Option.some.inj hdone
    · rename_i hdone
      cases hpool
      apply h.setDestructor hstopped rfl
      · intro k' hk' w hw
        cases hk'
        by_cases hwk : w = k
        · rw [hwk]
          exact hdone
        · exact h.joined k at_ w (by omega)
      · intro hret
        cases hret
    · cases hpool
  · cases hpool
  · cases hpool

/-- An admitted step. -/
theorem Kept.step (h : s.Kept) (hok : s.StopsInTime a) (hstep : s.step a = some t) : t.Kept := by
  unfold PoolSystem.step at hstep
  split at hstep
  · cases hstep
  rename_i live
  cases a with
  | postTask c =>
    simp only at hstep
    split at hstep
    · rename_i at_
      cases hstep
      apply h.setPost
      · rw [at_]
        rfl
      · simp [at_]
    · cases hstep
  | post c notified => exact h.postStep live hstep
  | worker w =>
    obtain ⟨pool, hpool, rfl⟩ := Option.map_eq_some_iff.mp hstep
    exact h.worker live hpool
  | destroy =>
    simp only at hstep
    split at hstep
    · rename_i at_
      cases hstep
      refine ⟨h.inserted, h.queued, h.held, ?_, ?_, ?_, ?_, ?_⟩
      · intro c hc
        exact eq_of_beq hc
      · show s.pool.tpRun = true
        rw [h.run, at_]
        rfl
      · intro hstop
        cases hstop
      · intro k hk
        cases hk
      · intro hret
        cases hret
    · cases hstep
  | destructor => exact h.destructorStep hok hstep

/-- A task whose call has returned is finished once, when nothing is left in the queue or in a
worker's hands. -/
theorem Kept.finished (h : s.Kept) (hret : s.destructor = .returned) {c : Nat}
    (hc : s.postedBefore c = true) : s.pool.finished.count c = 1 := by
  have hdone := h.ended hret
  have hready : s.readyWorkers = 0 := by
    apply List.countP_eq_zero.mpr
    intro pc hpc
    rw [hdone pc hpc]
    simp [WorkerPc.ready]
  have hheld : s.pool.tpPool.countP (fun pc ↦ pc.task? == some c) = 0 := by
    apply List.countP_eq_zero.mpr
    intro pc hpc
    rw [hdone pc hpc]
    simp [WorkerPc.task?]
  have hqueued : s.pool.tpTasks.count c = 0 := by
    apply List.count_eq_zero.mpr
    intro hmem
    have hleft := h.left (by rw [hret]; rfl) c (by rw [hready]; exact hmem)
    rw [hc] at hleft
    cases hleft
  have hinserted := h.inserted c
  rw [h.before c hc, h.queued, List.count_append, hqueued, h.held c, hheld] at hinserted
  simpa [PostPc.inserted] using hinserted

end PoolSystem

/-- If `tp_run` is cleared in time, each task posted before the destructor began is executed
exactly once. -/
theorem all_executed_once {n : Nat} {s : PoolSystem}
    (h : ReachBy PoolSystem.step PoolSystem.StopsInTime (.init n) s) : s.AllExecutedOnce := by
  have hinv : s.Kept := by
    apply h.invariant (PoolSystem.kept_init n)
    intro s a t hs hok hstep
    exact hs.step hok hstep
  intro hret c hc
  exact hinv.finished hret hc

/-- The only worker is blocked when a task is posted and the destructor begins. -/
def stopWithReadyWorker : List PoolAction :=
  List.replicate 4 (.worker 0) ++
    [.postTask 0, .post 0 none, .post 0 none, .post 0 (some 0), .destroy, .destructor,
      .destructor] ++
    List.replicate 9 (.worker 0) ++ [.destructor, .destructor]

/-- The blocked worker still takes the task. -/
theorem ready_worker_executes_task :
    ∃ s, run PoolSystem.step (.init 1) stopWithReadyWorker = some s ∧ s.AllExecutedOnce := by
  have hrun : (run PoolSystem.step (.init 1) stopWithReadyWorker).isSome := by decide +kernel
  obtain ⟨s, hs⟩ := Option.isSome_iff_exists.mp hrun
  exact ⟨s, hs, all_executed_once (reachBy_of_run hs (by decide +kernel))⟩

/-- A task is posted and the destructor begins before the only worker tests `tp_run`. -/
def stopBeforeWorker : List PoolAction :=
  [.postTask 0, .post 0 none, .post 0 none, .post 0 none, .destroy, .destructor, .destructor,
    .worker 0, .destructor, .destructor]

/-- The worker leaves its loop at the head, and the queued task is never executed. -/
theorem queued_task_is_not_executed :
    ¬ ∀ (n : Nat) (s : PoolSystem), 1 ≤ n → Reach PoolSystem.step (.init n) s →
      s.AllExecutedOnce := by
  intro h
  have hrun : (run PoolSystem.step (.init 1) stopBeforeWorker).isSome := by decide +kernel
  have hleft : ∀ t ∈ run PoolSystem.step (.init 1) stopBeforeWorker,
      t.destructor = .returned ∧ t.postedBefore 0 = true ∧ t.pool.finished = [] := by
    decide +kernel
  obtain ⟨s, hs⟩ := Option.isSome_iff_exists.mp hrun
  obtain ⟨hret, hposted, hempty⟩ := hleft s hs
  have hone := h 1 s (Nat.le_refl 1) (reach_of_run hs) hret 0 hposted
  rw [hempty] at hone
  cases hone

end ConcurrentServer.Pool
