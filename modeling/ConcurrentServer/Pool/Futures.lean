import ConcurrentServer.Base.Run
import ConcurrentServer.Pool.Threadpool
import Mathlib.Data.List.Nodup
import Mathlib.Logic.Function.Basic

/-!
# The futures of `post_task`

`src/threadpool/threadpool.h:38–98`. A call of `post_task` makes a shared `packaged_task` around
its function, keeps the future, and puts a wrapper that calls it into `tp_tasks`; a worker takes
the wrapper and runs it. `heap` are the packaged tasks made so far, and a wrapper is the address
of its packaged task. A function returns a value or throws, which the packaged task keeps for its
future; which of the two it does is arbitrary.
-/

namespace ConcurrentServer.Pool
open ConcurrentServer.Base

variable {E V : Type}

/-- `packaged_task<return_type()>`: the call whose function and arguments it binds, and the shared
state of its future. -/
structure PackagedTask (E V : Type) where
  bound : Nat
  state : Option (Except E V)

/-- Where a call of `post_task` is, with the address of its packaged task. -/
inductive FuturePc
  /-- Not called yet. -/
  | idle
  /-- Before the test of `tp_run`. -/
  | testRun
  /-- Before `make_shared` and `get_future`. -/
  | makeShared
  /-- Before the insertion. -/
  | emplace (task : Nat)
  /-- Before `notify_one`. -/
  | notify (task : Nat)
  /-- It has returned the future. -/
  | returned (task : Nat)
  /-- It has thrown "post_task on Threadpool has been stopped.". -/
  | threw
  deriving DecidableEq, Repr

namespace FuturePc

/-- The packaged task that the call has made. -/
def made? : FuturePc → Option Nat
  | .emplace task | .notify task | .returned task => some task
  | .idle | .testRun | .makeShared | .threw => none

/-- The packaged task that the call has inserted. -/
def inserted? : FuturePc → Option Nat
  | .notify task | .returned task => some task
  | .idle | .testRun | .makeShared | .emplace _ | .threw => none

/-- What was inserted was made. -/
theorem made_of_inserted {pc : FuturePc} {task : Nat} (h : pc.inserted? = some task) :
    pc.made? = some task := by
  cases pc <;> first | exact h | cases h

end FuturePc

/-- A pool, the calls made on it and the packaged tasks. -/
structure FutureSystem (E V : Type) where
  pool : Threadpool Nat
  heap : List (PackagedTask E V)
  posts : Nat → FuturePc
  destructor : DestructorPc
  /-- What the function of a call has done, each time it was executed. -/
  outcomes : Nat → List (Except E V)
  /-- What `get()` on the future of a call has delivered. -/
  delivered : Nat → Option (Except E V)

/-- What can happen next. -/
inductive FutureAction (E V : Type)
  /-- Call `c` is made. -/
  | postTask (c : Nat)
  /-- The next statement of call `c`; `notified` is the worker that `notify_one` reaches. -/
  | post (c : Nat) (notified : Option Nat)
  /-- The next statement of worker `w`; a function that ends does so with `outcome`. -/
  | worker (w : Nat) (outcome : Except E V)
  /-- `get()` on the future of call `c` delivers. -/
  | get (c : Nat)
  /-- The destructor begins. -/
  | destroy
  /-- The next statement of the destructor. -/
  | destructor

namespace FutureSystem

/-- A pool of `n` workers on which no call has been made. -/
def init (n : Nat) : FutureSystem E V :=
  ⟨.ofSize n, [], fun _ ↦ .idle, .idle, fun _ ↦ [], fun _ ↦ none⟩

/-- Call `c` moves on. -/
def setPost (s : FutureSystem E V) (c : Nat) (pc : FuturePc) : FutureSystem E V :=
  { s with posts := Function.update s.posts c pc }

/-- `post_task`; `src/threadpool/threadpool.h:38–62`. -/
def postStep (s : FutureSystem E V) (c : Nat) (notified : Option Nat) :
    Option (FutureSystem E V) :=
  match s.posts c with
  | .testRun => some (s.setPost c (if s.pool.tpRun then .makeShared else .threw))
  | .makeShared => some { s.setPost c (.emplace s.heap.length) with heap := s.heap ++ [⟨c, none⟩] }
  | .emplace task =>
    (s.pool.emplace task).map fun pool ↦ { s.setPost c (.notify task) with pool := pool }
  | .notify task =>
    (s.pool.notifyOne notified).map fun pool ↦ { s.setPost c (.returned task) with pool := pool }
  | .idle | .returned _ | .threw => none

/-- The function of the packaged task ends with `outcome`; a packaged task that has its result
throws out of the worker, which ends the process. -/
def finish (s : FutureSystem E V) (task : Nat) (outcome : Except E V) :
    Option (FutureSystem E V) :=
  match s.heap[task]? with
  | some ⟨c, none⟩ =>
    some { s with
      heap := s.heap.set task ⟨c, some outcome⟩
      outcomes := Function.update s.outcomes c (s.outcomes c ++ [outcome]) }
  | _ => none

/-- The loop of a worker. -/
def workerStep (s : FutureSystem E V) (w : Nat) (outcome : Except E V) :
    Option (FutureSystem E V) :=
  (s.pool.workerStep w).bind fun pool ↦
    match s.pool.tpPool[w]? with
    | some (.inside task) => (s.finish task outcome).map fun s ↦ { s with pool := pool }
    | _ => some { s with pool := pool }

/-- `future::get()`, which blocks until there is a result, and is called once at most. -/
def getStep (s : FutureSystem E V) (c : Nat) : Option (FutureSystem E V) :=
  match s.posts c, s.delivered c with
  | .returned task, none =>
    match s.heap[task]? with
    | some ⟨_, some outcome⟩ =>
      some { s with delivered := Function.update s.delivered c (some outcome) }
    | _ => none
  | _, _ => none

/-- The step function. Nothing runs after the destructor has returned. -/
def step (s : FutureSystem E V) (a : FutureAction E V) : Option (FutureSystem E V) :=
  if s.destructor = .returned then none
  else match a with
    | .postTask c => if s.posts c = .idle then some (s.setPost c .testRun) else none
    | .post c notified => s.postStep c notified
    | .worker w outcome => s.workerStep w outcome
    | .get c => s.getStep c
    | .destroy => if s.destructor = .idle then some { s with destructor := .stop } else none
    | .destructor =>
      (s.pool.destructorStep s.destructor).map fun (pool, destructor) ↦
        { s with pool := pool, destructor := destructor }

/-- Each accepted task is in one place: queued, taken by one worker, or finished. Tasks are taken
in the order in which they were inserted. No task is begun a second time, and what a future
delivers is what the one execution of the function of its own call has done. -/
structure Conserves (s : FutureSystem E V) : Prop where
  once : ∀ c task, (s.posts c).inserted? = some task →
    s.pool.tpTasks.count task + s.pool.tpPool.countP (fun pc ↦ pc.task? == some task) +
      s.pool.finished.count task = 1
  order : s.pool.inserted = s.pool.taken ++ s.pool.tpTasks
  accepted : ∀ task ∈ s.pool.inserted, ∃ c, (s.posts c).inserted? = some task
  first : ∀ (w : Nat) pc task, s.pool.tpPool[w]? = some pc → pc.task? = some task →
    ∃ c, s.heap[task]? = some ⟨c, none⟩
  delivers : ∀ c outcome, s.delivered c = some outcome → s.outcomes c = [outcome]

/-! ### Steps -/

/-- The statements of the threads at work. -/
inductive Step (s : FutureSystem E V) : FutureSystem E V → Prop
  | setPost (c : Nat) (pc : FuturePc) (before : (s.posts c).made? = none)
    (after : pc.made? = none) : Step s (s.setPost c pc)
  | makeShared (c : Nat) (at_ : s.posts c = .makeShared) :
    Step s { s.setPost c (.emplace s.heap.length) with heap := s.heap ++ [⟨c, none⟩] }
  | emplace (c task : Nat) (pool : Threadpool Nat) (at_ : s.posts c = .emplace task)
    (emplaced : s.pool.emplace task = some pool) :
    Step s { s.setPost c (.notify task) with pool := pool }
  | notify (c task : Nat) (pool : Threadpool Nat) (at_ : s.posts c = .notify task)
    (notified : s.pool.Notified pool) : Step s { s.setPost c (.returned task) with pool := pool }
  | work (w : Nat) (pool : Threadpool Nat) (moved : s.pool.workerStep w = some pool)
    (other : ∀ task, s.pool.tpPool[w]? ≠ some (.inside task)) : Step s { s with pool := pool }
  | finish (w task c : Nat) (outcome : Except E V) (pool : Threadpool Nat)
    (at_ : s.pool.tpPool[w]? = some (.inside task)) (moved : s.pool.workerStep w = some pool)
    (first : s.heap[task]? = some ⟨c, none⟩) :
    Step s { s with
      pool := pool
      heap := s.heap.set task ⟨c, some outcome⟩
      outcomes := Function.update s.outcomes c (s.outcomes c ++ [outcome]) }
  | get (c task c' : Nat) (outcome : Except E V) (at_ : s.posts c = .returned task)
    (ready : s.heap[task]? = some ⟨c', some outcome⟩) :
    Step s { s with delivered := Function.update s.delivered c (some outcome) }
  | destructor (pc pc' : DestructorPc) (pool : Threadpool Nat)
    (moved : s.pool.destructorStep pc = some (pool, pc')) (pc'' : DestructorPc) :
    Step s { s with pool := pool, destructor := pc'' }
  | destroy (pc : DestructorPc) : Step s { s with destructor := pc }

variable {s t : FutureSystem E V} {a : FutureAction E V}

/-- Steps of a call. -/
theorem step_of_postStep {c : Nat} {who : Option Nat} (h : s.postStep c who = some t) :
    Step s t := by
  unfold postStep at h
  split at h
  · rename_i at_
    cases h
    apply Step.setPost
    · rw [at_]
      rfl
    · split <;> rfl
  · rename_i at_
    cases h
    exact .makeShared c at_
  · rename_i task at_
    obtain ⟨pool, hpool, rfl⟩ := Option.map_eq_some_iff.mp h
    exact .emplace c task pool at_ hpool
  · rename_i task at_
    obtain ⟨pool, hpool, rfl⟩ := Option.map_eq_some_iff.mp h
    exact .notify c task pool at_ (Threadpool.notified_notifyOne hpool)
  all_goals cases h

/-- Steps of a worker. -/
theorem step_of_workerStep {w : Nat} {outcome : Except E V}
    (h : s.workerStep w outcome = some t) : Step s t := by
  obtain ⟨pool, hpool, hafter⟩ := Option.bind_eq_some_iff.mp h
  split at hafter
  · rename_i task at_
    obtain ⟨u, hu, rfl⟩ := Option.map_eq_some_iff.mp hafter
    unfold FutureSystem.finish at hu
    split at hu
    · rename_i c hfirst
      cases hu
      exact .finish w task c outcome pool at_ hpool hfirst
    · cases hu
  · rename_i hother
    cases hafter
    exact .work w pool hpool hother

/-- Every step is one of these. -/
theorem step_inversion (h : s.step a = some t) : Step s t := by
  unfold step at h
  split at h
  · cases h
  cases a with
  | postTask c =>
    simp only [Option.ite_none_right_eq_some, Option.some.injEq] at h
    obtain ⟨at_, rfl⟩ := h
    apply Step.setPost
    · rw [at_]
      rfl
    · rfl
  | post c who => exact step_of_postStep h
  | worker w outcome => exact step_of_workerStep h
  | get c =>
    replace h : s.getStep c = some t := h
    unfold getStep at h
    split at h
    · rename_i task at_ hnone
      split at h
      · rename_i c' outcome ready
        cases h
        exact .get c task c' outcome at_ ready
      · cases h
    · cases h
  | destroy =>
    simp only [Option.ite_none_right_eq_some, Option.some.injEq] at h
    obtain ⟨-, rfl⟩ := h
    exact .destroy _
  | destructor =>
    obtain ⟨⟨pool, pc'⟩, hpool, rfl⟩ := Option.map_eq_some_iff.mp h
    exact .destructor _ _ pool hpool _

/-! ### Calls, packaged tasks and results -/

/-- What is at an address after one more object has been made. -/
theorem getElem?_concat_eq_some {α : Type} {heap : List α} {new x : α} {k : Nat} :
    (heap ++ [new])[k]? = some x ↔ heap[k]? = some x ∨ k = heap.length ∧ x = new := by
  by_cases hlt : k < heap.length
  · rw [List.getElem?_append_left hlt]
    simp [Nat.ne_of_lt hlt]
  · rw [List.getElem?_append_right (Nat.le_of_not_lt hlt),
      List.getElem?_eq_none (Nat.le_of_not_lt hlt), List.getElem?_singleton]
    have hlast : k - heap.length = 0 ↔ k = heap.length := by omega
    simp [hlast, eq_comm]

/-- What is at an address after one object has been changed. -/
theorem getElem?_set_eq_some {α : Type} {heap : List α} {old new x : α} {k i : Nat}
    (at_ : heap[k]? = some old) :
    (heap.set k new)[i]? = some x ↔ heap[i]? = some x ∧ i ≠ k ∨ i = k ∧ x = new := by
  rw [getElem?_setThread at_]
  by_cases hi : i = k
  · simp [hi, eq_comm]
  · simp [hi]

/-- Calls, packaged tasks and wrappers belong together one by one, and a packaged task has the
result of its function once it has been executed. -/
structure Linked (s : FutureSystem E V) : Prop where
  conserved : s.pool.Conserved
  made : ∀ c task, (s.posts c).made? = some task ↔
    ∃ state, s.heap[task]? = some (PackagedTask.mk c state)
  nodup : s.pool.inserted.Nodup
  inserted : ∀ task, task ∈ s.pool.inserted ↔ ∃ c, (s.posts c).inserted? = some task
  results : ∀ (c task : Nat) state, s.heap[task]? = some (PackagedTask.mk c state) →
    s.outcomes c = state.toList ∧ (task ∈ s.pool.finished ↔ state.isSome = true)
  unmade : ∀ c, (s.posts c).made? = none → s.outcomes c = []
  delivers : ∀ c outcome, s.delivered c = some outcome →
    ∃ task : Nat, s.heap[task]? = some ⟨c, some outcome⟩

/-- Before the first step. -/
theorem linked_init (n : Nat) : (init (E := E) (V := V) n).Linked := by
  constructor
  · exact Threadpool.conserved_ofSize n
  · intro c task
    constructor
    · intro hmade
      cases hmade
    · rintro ⟨state, hheap⟩
      cases hheap
  · exact List.nodup_nil
  · intro task
    constructor
    · intro hmem
      cases hmem
    · rintro ⟨c, hc⟩
      cases hc
  · intro c task state hheap
    cases hheap
  · intro c _
    rfl
  · intro c outcome hget
    cases hget

/-- A finished task was inserted. -/
theorem Linked.mem_inserted_of_finished (h : s.Linked) {task : Nat}
    (hmem : task ∈ s.pool.finished) : task ∈ s.pool.inserted := by
  rw [h.conserved.queued]
  apply List.mem_append_left
  rw [← List.count_pos_iff, h.conserved.held task]
  have hpos := List.count_pos_iff.mpr hmem
  omega

/-- An inserted task was made. -/
theorem Linked.heap_of_inserted (h : s.Linked) {task : Nat} (hmem : task ∈ s.pool.inserted) :
    ∃ c state, (s.posts c).inserted? = some task ∧ s.heap[task]? = some ⟨c, state⟩ := by
  obtain ⟨c, hc⟩ := (h.inserted task).mp hmem
  obtain ⟨state, hheap⟩ := (h.made c task).mp (FuturePc.made_of_inserted hc)
  exact ⟨c, state, hc, hheap⟩

/-- The packaged task of a call is the only one that binds its function. -/
theorem Linked.task_unique (h : s.Linked) {c task task' : Nat} {state state' : Option (Except E V)}
    (hheap : s.heap[task]? = some ⟨c, state⟩) (hheap' : s.heap[task']? = some ⟨c, state'⟩) :
    task = task' := by
  have hmade := (h.made c task).mpr ⟨state, hheap⟩
  rw [(h.made c task').mpr ⟨state', hheap'⟩] at hmade
  exact (Option.some.inj hmade).symm

/-- When the calls have inserted the same tasks, so has the pool. -/
theorem Linked.inserted_of_same (h : s.Linked) {posts : Nat → FuturePc}
    (same : ∀ c, (posts c).inserted? = (s.posts c).inserted?) (task : Nat) :
    task ∈ s.pool.inserted ↔ ∃ c, (posts c).inserted? = some task := by
  simp only [same]
  exact h.inserted task

/-- A task is inserted at most once. -/
theorem Linked.count_inserted (h : s.Linked) (task : Nat) : s.pool.inserted.count task ≤ 1 :=
  List.nodup_iff_count_le_one.mp h.nodup task

/-- A task in a worker's hands has no result yet. -/
theorem Linked.first (h : s.Linked) {w task : Nat} {pc : WorkerPc Nat}
    (hw : s.pool.tpPool[w]? = some pc) (hpc : pc.task? = some task) :
    ∃ c, s.heap[task]? = some ⟨c, none⟩ := by
  have hheld : 0 < s.pool.tpPool.countP (fun pc ↦ pc.task? == some task) := by
    apply List.countP_pos_iff.mpr
    refine ⟨pc, List.mem_of_getElem? hw, ?_⟩
    rw [hpc]
    exact beq_self_eq_true _
  have htaken := h.conserved.held task
  have hone := h.count_inserted task
  rw [h.conserved.queued, List.count_append] at hone
  have hinserted : task ∈ s.pool.inserted := by
    rw [h.conserved.queued]
    apply List.mem_append_left
    rw [← List.count_pos_iff]
    omega
  obtain ⟨c, state, -, hheap⟩ := h.heap_of_inserted hinserted
  refine ⟨c, ?_⟩
  cases state with
  | none => exact hheap
  | some outcome =>
    have hfinished := List.count_pos_iff.mpr ((h.results c task _ hheap).2.mpr rfl)
    omega

/-- A call moves on without making or inserting anything. -/
theorem Linked.setPost (h : s.Linked) {c : Nat} {pc : FuturePc}
    (made : pc.made? = (s.posts c).made?) (inserted : pc.inserted? = (s.posts c).inserted?) :
    (s.setPost c pc).Linked := by
  have hmade := fun c' ↦ apply_update_of_same FuturePc.made? made c'
  have hinserted := fun c' ↦ apply_update_of_same FuturePc.inserted? inserted c'
  refine ⟨h.conserved, ?_, h.nodup, ?_, h.results, ?_, h.delivers⟩
  · intro c' task
    show (Function.update s.posts c pc c').made? = some task ↔ _
    rw [hmade c']
    exact h.made c' task
  · exact h.inserted_of_same hinserted
  · intro c' hc'
    apply h.unmade
    rw [← hmade c']
    exact hc'

/-- The pool changes, but neither what was inserted nor what is finished. -/
theorem Linked.pool (h : s.Linked) {pool : Threadpool Nat} (conserved : pool.Conserved)
    (inserted : pool.inserted = s.pool.inserted) (finished : pool.finished = s.pool.finished) :
    { s with pool := pool }.Linked := by
  refine ⟨conserved, h.made, ?_, ?_, ?_, h.unmade, h.delivers⟩
  · show pool.inserted.Nodup
    rw [inserted]
    exact h.nodup
  · show ∀ task, task ∈ pool.inserted ↔ _
    rw [inserted]
    exact h.inserted
  · show ∀ c task state, s.heap[task]? = some ⟨c, state⟩ →
      s.outcomes c = state.toList ∧ (task ∈ pool.finished ↔ state.isSome = true)
    rw [finished]
    exact h.results

/-- A packaged task is made. -/
theorem Linked.makeShared (h : s.Linked) {c : Nat} (at_ : s.posts c = .makeShared) :
    { s.setPost c (.emplace s.heap.length) with
      heap := s.heap ++ [PackagedTask.mk c none] }.Linked := by
  have hunmade : (s.posts c).made? = none := by
    rw [at_]
    rfl
  have hold : ∀ (task : Nat) state, s.heap[task]? ≠ some (PackagedTask.mk c state) := by
    intro task state hheap
    have hmade := (h.made c task).mpr ⟨state, hheap⟩
    rw [hunmade] at hmade
    cases hmade
  have hend : s.heap[s.heap.length]? = none := List.getElem?_eq_none (Nat.le_refl _)
  have hinserted : ∀ c', (Function.update s.posts c (.emplace s.heap.length) c').inserted? =
      (s.posts c').inserted? := by
    apply apply_update_of_same
    rw [at_]
    rfl
  refine ⟨h.conserved, ?_, h.nodup, ?_, ?_, ?_, ?_⟩
  · intro c' task
    show (Function.update s.posts c (.emplace s.heap.length) c').made? = some task ↔
      ∃ state, (s.heap ++ [PackagedTask.mk c none])[task]? = some ⟨c', state⟩
    by_cases hc : c' = c
    · rw [hc, Function.update_self]
      constructor
      · intro hmade
        cases hmade
        exact ⟨none, getElem?_concat_eq_some.mpr (Or.inr ⟨rfl, rfl⟩)⟩
      · rintro ⟨state, hheap⟩
        cases getElem?_concat_eq_some.mp hheap with
        | inl hheap => exact absurd hheap (hold task state)
        | inr heq =>
          rw [heq.1]
          rfl
    · rw [Function.update_of_ne hc, h.made c' task]
      constructor
      · rintro ⟨state, hheap⟩
        exact ⟨state, getElem?_concat_eq_some.mpr (Or.inl hheap)⟩
      · rintro ⟨state, hheap⟩
        cases getElem?_concat_eq_some.mp hheap with
        | inl hheap => exact ⟨state, hheap⟩
        | inr heq =>
          cases heq.2
          exact absurd rfl hc
  · exact h.inserted_of_same hinserted
  · intro c' task state hheap
    cases getElem?_concat_eq_some.mp hheap with
    | inl hheap => exact h.results c' task state hheap
    | inr heq =>
      obtain ⟨htask, hmk⟩ := heq
      cases hmk
      refine ⟨h.unmade c hunmade, ?_⟩
      constructor
      · intro hfinished
        obtain ⟨c₀, state₀, -, hheap₀⟩ :=
          h.heap_of_inserted (h.mem_inserted_of_finished hfinished)
        rw [htask, hend] at hheap₀
        cases hheap₀
      · intro hsome
        cases hsome
  · intro c' hc'
    apply h.unmade
    by_cases hc : c' = c
    · rw [hc]
      exact hunmade
    · rw [← hc']
      show _ = (Function.update s.posts c (.emplace s.heap.length) c').made?
      rw [Function.update_of_ne hc]
  · intro c' outcome hget
    obtain ⟨task, hheap⟩ := h.delivers c' outcome hget
    exact ⟨task, getElem?_concat_eq_some.mpr (Or.inl hheap)⟩

/-- A wrapper is inserted. -/
theorem Linked.emplace (h : s.Linked) {c task : Nat} {pool : Threadpool Nat}
    (at_ : s.posts c = .emplace task) (emplaced : s.pool.emplace task = some pool) :
    { s.setPost c (.notify task) with pool := pool }.Linked := by
  have hconserved := h.conserved.emplace emplaced
  have hmade : ∀ c', (Function.update s.posts c (.notify task) c').made? = (s.posts c').made? := by
    apply apply_update_of_same
    rw [at_]
    rfl
  have hnew : task ∉ s.pool.inserted := by
    intro hmem
    obtain ⟨c', state, hc', hheap⟩ := h.heap_of_inserted hmem
    obtain ⟨state', hheap'⟩ := (h.made c task).mp (by rw [at_]; rfl)
    rw [hheap] at hheap'
    cases hheap'
    rw [at_] at hc'
    cases hc'
  unfold Threadpool.emplace at emplaced
  split at emplaced
  · cases emplaced
    refine ⟨hconserved, ?_, ?_, ?_, h.results, ?_, h.delivers⟩
    · intro c' task'
      show (Function.update s.posts c (.notify task) c').made? = some task' ↔ _
      rw [hmade c']
      exact h.made c' task'
    · show (s.pool.inserted ++ [task]).Nodup
      rw [List.nodup_append]
      refine ⟨h.nodup, List.nodup_singleton task, ?_⟩
      intro task' hmem task'' hmem' heq
      rw [List.mem_singleton] at hmem'
      rw [heq, hmem'] at hmem
      exact hnew hmem
    · intro task'
      show task' ∈ s.pool.inserted ++ [task] ↔
        ∃ c', (Function.update s.posts c (.notify task) c').inserted? = some task'
      rw [List.mem_append, List.mem_singleton, h.inserted task']
      constructor
      · rintro (⟨c', hc'⟩ | heq)
        · refine ⟨c', ?_⟩
          rw [Function.update_of_ne]
          · exact hc'
          · intro hc
            rw [hc, at_] at hc'
            cases hc'
        · refine ⟨c, ?_⟩
          rw [Function.update_self, heq]
          rfl
      · rintro ⟨c', hc'⟩
        by_cases hc : c' = c
        · rw [hc, Function.update_self] at hc'
          cases hc'
          exact Or.inr rfl
        · rw [Function.update_of_ne hc] at hc'
          exact Or.inl ⟨c', hc'⟩
    · intro c' hc'
      apply h.unmade
      rw [← hmade c']
      exact hc'
  · cases emplaced

/-- A worker that does not end a task. -/
theorem Linked.work (h : s.Linked) {w : Nat} {pool : Threadpool Nat}
    (moved : s.pool.workerStep w = some pool)
    (other : ∀ task, s.pool.tpPool[w]? ≠ some (.inside task)) : { s with pool := pool }.Linked := by
  obtain ⟨pc, pc', hw⟩ := Threadpool.workerStep_inversion moved
  refine h.pool (h.conserved.workerStep hw) hw.inserted ?_
  cases hw.move with
  | stay task tasks taken finished enters leaves => exact finished
  | take task before after tasks taken finished => exact finished
  | finish task before after tasks taken finished =>
    rw [before] at hw
    exact absurd hw.at_ (other task)

/-- A worker that ends its task. -/
theorem finished_of_inside {w task : Nat} {pool : Threadpool Nat}
    (at_ : s.pool.tpPool[w]? = some (.inside task)) (moved : s.pool.workerStep w = some pool) :
    pool.finished = s.pool.finished ++ [task] := by
  unfold Threadpool.workerStep at moved
  rw [at_] at moved
  cases moved
  rfl

/-- A function ends, and its packaged task keeps what it has done. -/
theorem Linked.finish (h : s.Linked) {w task c : Nat} {outcome : Except E V}
    {pool : Threadpool Nat} (at_ : s.pool.tpPool[w]? = some (.inside task))
    (moved : s.pool.workerStep w = some pool) (first : s.heap[task]? = some ⟨c, none⟩) :
    { s with
      pool := pool
      heap := s.heap.set task (PackagedTask.mk c (some outcome))
      outcomes := Function.update s.outcomes c (s.outcomes c ++ [outcome]) }.Linked := by
  have hfinished := finished_of_inside at_ moved
  obtain ⟨pc, pc', hw⟩ := Threadpool.workerStep_inversion moved
  have hempty : s.outcomes c = [] := (h.results c task none first).1
  refine ⟨h.conserved.workerStep hw, ?_, ?_, ?_, ?_, ?_, ?_⟩
  · intro c' task'
    show (s.posts c').made? = some task' ↔
      ∃ state, (s.heap.set task (PackagedTask.mk c (some outcome)))[task']? = some ⟨c', state⟩
    rw [h.made c' task']
    constructor
    · rintro ⟨state, hheap⟩
      by_cases htask : task' = task
      · rw [htask, first] at hheap
        cases hheap
        exact ⟨some outcome, (getElem?_set_eq_some first).mpr (Or.inr ⟨htask, rfl⟩)⟩
      · exact ⟨state, (getElem?_set_eq_some first).mpr (Or.inl ⟨hheap, htask⟩)⟩
    · rintro ⟨state, hheap⟩
      rcases (getElem?_set_eq_some first).mp hheap with ⟨hold, -⟩ | ⟨rfl, hmk⟩
      · exact ⟨state, hold⟩
      · cases hmk
        exact ⟨none, first⟩
  · show pool.inserted.Nodup
    rw [hw.inserted]
    exact h.nodup
  · show ∀ task', task' ∈ pool.inserted ↔ _
    rw [hw.inserted]
    exact h.inserted
  · intro c' task' state hheap
    show Function.update s.outcomes c (s.outcomes c ++ [outcome]) c' = state.toList ∧
      (task' ∈ pool.finished ↔ state.isSome = true)
    rw [hfinished, List.mem_append, List.mem_singleton]
    rcases (getElem?_set_eq_some first).mp hheap with ⟨hold, htask⟩ | ⟨htask, hmk⟩
    · have hc : c' ≠ c := by
        intro hc
        rw [hc] at hold
        exact htask (h.task_unique hold first)
      obtain ⟨houtcomes, hiff⟩ := h.results c' task' state hold
      rw [Function.update_of_ne hc]
      refine ⟨houtcomes, ?_⟩
      rw [hiff]
      simp [htask]
    · cases hmk
      rw [Function.update_self, hempty]
      exact ⟨rfl, by simp [htask]⟩
  · intro c' hc'
    have hc : c' ≠ c := by
      intro hc
      have hmade := (h.made c task).mpr ⟨none, first⟩
      rw [← hc, hc'] at hmade
      cases hmade
    show Function.update s.outcomes c _ c' = []
    rw [Function.update_of_ne hc]
    exact h.unmade c' hc'
  · intro c' outcome' hget
    obtain ⟨task', hheap⟩ := h.delivers c' outcome' hget
    refine ⟨task', (getElem?_set_eq_some first).mpr (Or.inl ⟨hheap, ?_⟩)⟩
    intro htask
    rw [htask, first] at hheap
    cases hheap

/-- A future delivers. -/
theorem Linked.get (h : s.Linked) {c task c' : Nat} {outcome : Except E V}
    (at_ : s.posts c = .returned task) (ready : s.heap[task]? = some ⟨c', some outcome⟩) :
    { s with delivered := Function.update s.delivered c (some outcome) }.Linked := by
  refine ⟨h.conserved, h.made, h.nodup, h.inserted, h.results, h.unmade, ?_⟩
  intro c₁ outcome₁ hget
  change Function.update s.delivered c (some outcome) c₁ = some outcome₁ at hget
  by_cases hc : c₁ = c
  · rw [hc, Function.update_self] at hget
    cases hget
    obtain ⟨state, hheap⟩ := (h.made c task).mp (by rw [at_]; rfl)
    rw [ready] at hheap
    cases hheap
    rw [hc]
    exact ⟨task, ready⟩
  · rw [Function.update_of_ne hc] at hget
    exact h.delivers c₁ outcome₁ hget

/-- The destructor neither inserts nor finishes a task. -/
theorem destructorStep_frame {pool : Threadpool Nat} {pc pc' : DestructorPc}
    (moved : s.pool.destructorStep pc = some (pool, pc')) :
    pool.inserted = s.pool.inserted ∧ pool.finished = s.pool.finished := by
  unfold Threadpool.destructorStep at moved
  split at moved
  · cases moved
    exact ⟨rfl, rfl⟩
  · cases moved
    exact ⟨rfl, rfl⟩
  · split at moved <;> cases moved <;> exact ⟨rfl, rfl⟩
  · cases moved
  · cases moved

/-- Every step. -/
theorem Linked.step (h : s.Linked) (hstep : Step s t) : t.Linked := by
  cases hstep with
  | setPost c pc before after =>
    have hinserted : ∀ {pc : FuturePc}, pc.made? = none → pc.inserted? = none := by
      intro pc hpc
      cases pc <;> first | rfl | cases hpc
    exact h.setPost (after.trans before.symm) ((hinserted after).trans (hinserted before).symm)
  | makeShared c at_ => exact h.makeShared at_
  | emplace c task pool at_ emplaced => exact h.emplace at_ emplaced
  | notify c task pool at_ notified =>
    have hpost : (s.setPost c (.returned task)).Linked := by
      apply h.setPost
      · rw [at_]
        rfl
      · rw [at_]
        rfl
    have hsame := notified.same
    exact hpost.pool (hpost.conserved.notified notified) (by rw [hsame]; rfl) (by rw [hsame]; rfl)
  | work w pool moved other => exact h.work moved other
  | finish w task c outcome pool at_ moved first => exact h.finish at_ moved first
  | get c task c' outcome at_ ready => exact h.get at_ ready
  | destructor pc pc' pool moved pc'' =>
    obtain ⟨hinserted, hfinished⟩ := destructorStep_frame moved
    have hpool : { s with pool := pool }.Linked :=
      h.pool (h.conserved.destructorStep moved) hinserted hfinished
    exact ⟨hpool.conserved, hpool.made, hpool.nodup, hpool.inserted, hpool.results, hpool.unmade,
      hpool.delivers⟩
  | destroy pc =>
    exact ⟨h.conserved, h.made, h.nodup, h.inserted, h.results, h.unmade, h.delivers⟩

/-- In every reached state. -/
theorem linked_of_reach {n : Nat} (h : Reach step (init (E := E) (V := V) n) s) : s.Linked := by
  apply h.invariant (linked_init n)
  intro s a t hs _ hstep
  exact hs.step (step_inversion hstep)

end FutureSystem

/-- At every moment, whatever the calls of `post_task`, the workers and the destructor do, tasks
are conserved and futures deliver what the tasks of their own calls have done. -/
theorem tasks_conserved {n : Nat} {s : FutureSystem E V}
    (h : Reach FutureSystem.step (.init n) s) : s.Conserves := by
  have hlinked := FutureSystem.linked_of_reach h
  constructor
  · intro c task hc
    have hmem := (hlinked.inserted task).mpr ⟨c, hc⟩
    have hcount := hlinked.conserved.accepted task
    have hone := hlinked.count_inserted task
    have hpos := List.count_pos_iff.mpr hmem
    unfold Threadpool.accepted at hcount
    omega
  · exact hlinked.conserved.queued
  · intro task hmem
    exact (hlinked.inserted task).mp hmem
  · intro w pc task hw hpc
    exact hlinked.first hw hpc
  · intro c outcome hget
    obtain ⟨task, hheap⟩ := hlinked.delivers c outcome hget
    exact (hlinked.results c task _ hheap).1

/-- Two calls post their tasks to two workers; the second task throws, and ends first. -/
def throwingTask : List (FutureAction String Nat) :=
  .flatten [[.postTask 0], .replicate 4 (.post 0 none), [.postTask 1], .replicate 4 (.post 1 none),
    .replicate 7 (.worker 0 (.ok 7)), .replicate 8 (.worker 1 (.error "thrown")),
    [.worker 0 (.ok 7), .get 0, .get 1]]

/-- Each future delivers what the task of its own call has done. -/
theorem futures_deliver_own_results :
    ∃ s, run FutureSystem.step (.init 2) throwingTask = some s ∧ s.Conserves := by
  have hrun : (run FutureSystem.step (.init 2) throwingTask).isSome := by decide +kernel
  obtain ⟨s, hs⟩ := Option.isSome_iff_exists.mp hrun
  exact ⟨s, hs, tasks_conserved (reach_of_run hs)⟩

end ConcurrentServer.Pool
