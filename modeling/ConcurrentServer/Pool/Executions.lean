import ConcurrentServer.Pool.Threadpool
import Mathlib.Data.List.Count
import Mathlib.Data.List.Perm.Subperm

/-!
# From the queue into the hands of a worker

`src/threadpool/threadpool.h:77–95`. Where the copies of a task are: still to begin, being
executed, or finished. A step of a worker leaves them, or moves one copy on by one place; the other
steps of a pool but the insertion leave them.
-/

namespace ConcurrentServer.Pool
open ConcurrentServer.Base

variable {Task : Type}

namespace WorkerPc

/-- The task that the worker has taken and not begun. -/
def toCall? : WorkerPc Task → Option Task
  | .dec task | .call task => some task
  | _ => none

/-- The task that the worker is inside. -/
def inside? : WorkerPc Task → Option Task
  | .inside task => some task
  | _ => none

end WorkerPc

namespace Threadpool

variable [DecidableEq Task]

/-- How many workers are inside `task`. -/
def inside (s : Threadpool Task) (task : Task) : Nat :=
  s.tpPool.countP fun pc ↦ pc.inside? == some task

theorem toBegin_eq (s : Threadpool Task) (task : Task) :
    s.toBegin task = s.tpTasks.count task + s.tpPool.countP fun pc ↦ pc.toCall? == some task := by
  unfold toBegin
  congr 2
  funext pc
  rw [Bool.eq_iff_iff]
  cases pc <;> simp [WorkerPc.toCall?]

/-- What a step does to the copies of the tasks. -/
inductive Moves (s t : Threadpool Task) : Prop
  /-- They stay where they are. -/
  | stay (toBegin : ∀ task, t.toBegin task = s.toBegin task)
    (inside : ∀ task, t.inside task = s.inside task) (finished : t.finished = s.finished)
  /-- A worker begins with one. -/
  | begin (w : Nat) (task : Task) (at_ : s.tpPool[w]? = some (.call task))
    (toBegin : ∀ task', t.toBegin task' + [task].count task' = s.toBegin task')
    (inside : ∀ task', t.inside task' = s.inside task' + [task].count task')
    (finished : t.finished = s.finished)
  /-- A worker has executed one. -/
  | finish (task : Task) (toBegin : ∀ task', t.toBegin task' = s.toBegin task')
    (inside : ∀ task', t.inside task' + [task].count task' = s.inside task')
    (finished : t.finished = s.finished ++ [task])

variable {s t : Threadpool Task} {w : Nat} {pc pc' : WorkerPc Task}

/-- A worker that keeps its task moves on. -/
theorem Moves.of_set (at_ : s.tpPool[w]? = some pc) (pool : t.tpPool = s.tpPool.set w pc')
    (toCall : pc'.toCall? = pc.toCall?) (inside : pc'.inside? = pc.inside?)
    (tasks : t.tpTasks = s.tpTasks) (finished : t.finished = s.finished) : Moves s t := by
  refine .stay (fun task ↦ ?_) (fun task ↦ ?_) finished
  · rw [toBegin_eq, toBegin_eq, tasks, pool, countP_setThread_eq _ at_ (by rw [toCall])]
  · unfold Threadpool.inside
    rw [pool, countP_setThread_eq _ at_ (by rw [inside])]

/-- A step of a worker. -/
theorem moves_of_workerStep (h : s.workerStep w = some t) : Moves s t := by
  unfold workerStep at h
  split at h
  · cases h
  · cases h
  · rename_i at_
    cases h
    exact .of_set at_ rfl (by split <;> rfl) (by split <;> rfl) rfl rfl
  · rename_i at_
    split at h
    · cases h
      exact .of_set at_ rfl rfl rfl rfl rfl
    · cases h
  · rename_i at_
    split at h
    · cases h
      exact .of_set at_ rfl rfl rfl rfl rfl
    · cases h
  · rename_i at_
    cases h
    exact .of_set at_ rfl (by split <;> rfl) (by split <;> rfl) rfl rfl
  · rename_i at_
    cases h
    exact .of_set at_ rfl rfl rfl rfl rfl
  · rename_i at_
    split at h
    · cases h
      exact .of_set at_ rfl rfl rfl rfl rfl
    · cases h
      exact .of_set at_ rfl rfl rfl rfl rfl
  · rename_i at_
    split at h
    · cases h
    · -- The task in front passes from the queue to the worker.
      rename_i task rest htasks
      cases h
      refine .stay (fun task' ↦ ?_) (fun task' ↦ countP_setThread_eq _ at_ rfl) rfl
      have hcount : (s.tpPool.set w (.dec task)).countP (fun pc ↦ pc.toCall? == some task') + 0 =
          s.tpPool.countP (fun pc ↦ pc.toCall? == some task') + if task == task' then 1 else 0 :=
        countP_setThread _ at_ _
      rw [toBegin_eq, toBegin_eq, htasks, List.count_cons]
      change rest.count task' + (s.tpPool.set w (.dec task)).countP _ = _
      omega
  · rename_i task at_
    cases h
    exact .of_set at_ rfl rfl rfl rfl rfl
  · rename_i task at_
    cases h
    refine .begin w task at_ (fun task' ↦ ?_) (fun task' ↦ ?_) rfl
    · have hcount : (s.tpPool.set w (.inside task)).countP (fun pc ↦ pc.toCall? == some task') +
          (if task == task' then 1 else 0) =
            s.tpPool.countP (fun pc ↦ pc.toCall? == some task') + 0 :=
        countP_setThread _ at_ _
      rw [toBegin_eq, toBegin_eq, List.count_singleton]
      change s.tpTasks.count task' + (s.tpPool.set w (.inside task)).countP _ + _ = _
      omega
    · have hcount : (s.tpPool.set w (.inside task)).countP (fun pc ↦ pc.inside? == some task') + 0 =
          s.tpPool.countP (fun pc ↦ pc.inside? == some task') + if task == task' then 1 else 0 :=
        countP_setThread _ at_ _
      rw [List.count_singleton]
      exact hcount
  · rename_i task at_
    cases h
    refine .finish task (fun task' ↦ ?_) (fun task' ↦ ?_) rfl
    · rw [toBegin_eq, toBegin_eq]
      exact congrArg _ (countP_setThread_eq _ at_ rfl)
    · have hcount : (s.tpPool.set w .inc).countP (fun pc ↦ pc.inside? == some task') +
          (if task == task' then 1 else 0) =
            s.tpPool.countP (fun pc ↦ pc.inside? == some task') + 0 :=
        countP_setThread _ at_ _
      rw [List.count_singleton]
      exact hcount
  · rename_i at_
    cases h
    exact .of_set at_ rfl rfl rfl rfl rfl

/-- Only the return of a task leaves fewer workers inside it. -/
theorem inside_of_workerStep (h : s.workerStep w = some t) {task : Task}
    (fewer : t.inside task < s.inside task) : s.tpPool[w]? = some (.inside task) := by
  obtain ⟨pc, pc', hstep⟩ := workerStep_inversion h
  have hcount : t.inside task + (if pc.inside? == some task then 1 else 0) =
      s.inside task + if pc'.inside? == some task then 1 else 0 := by
    unfold inside
    rw [hstep.pool]
    exact countP_setThread (fun pc ↦ pc.inside? == some task) hstep.at_ pc'
  have hpc : (pc.inside? == some task) = true := by
    by_contra hne
    rw [if_neg hne] at hcount
    omega
  rw [hstep.at_]
  cases pc with
  | inside task' => rw [Option.some.inj (beq_iff_eq.mp hpc)]
  | _ => cases hpc

/-- A notification leaves the tasks to the workers that are inside them. -/
theorem inside_notifyAll (s : Threadpool Task) (task : Task) :
    s.notifyAll.inside task = s.inside task := by
  change (s.tpPool.map WorkerPc.notify).countP _ = s.tpPool.countP _
  rw [List.countP_map]
  congr 1
  funext pc
  cases pc <;> rfl

/-- `notify_all`. -/
theorem moves_notifyAll (s : Threadpool Task) : Moves s s.notifyAll := by
  refine .stay (fun task ↦ ?_) (fun task ↦ ?_) rfl
  · rw [toBegin_eq, toBegin_eq]
    change s.tpTasks.count task + (s.tpPool.map WorkerPc.notify).countP _ = _
    rw [List.countP_map]
    congr 2
    funext pc
    cases pc <;> rfl
  · exact s.inside_notifyAll task

/-- A notification leaves the tasks to the workers that are inside them. -/
theorem inside_of_notifyOne {who : Option Nat} (h : s.notifyOne who = some t) (task : Task) :
    t.inside task = s.inside task := by
  unfold notifyOne at h
  split at h
  · split at h
    · rename_i at_
      cases h
      exact countP_setThread_eq _ at_ rfl
    · cases h
  · split at h
    · cases h
    · cases h
      rfl

/-- The destructor leaves the tasks to the workers that are inside them. -/
theorem inside_of_destructorStep {pc pc' : DestructorPc}
    (h : s.destructorStep pc = some (t, pc')) (task : Task) : t.inside task = s.inside task := by
  unfold destructorStep at h
  split at h
  · cases h
    rfl
  · cases h
    exact s.inside_notifyAll task
  · split at h
    · cases h
      rfl
    · cases h
      rfl
    · cases h
  · cases h
  · cases h

/-- `notify_one`. -/
theorem moves_of_notifyOne {who : Option Nat} (h : s.notifyOne who = some t) : Moves s t := by
  unfold notifyOne at h
  split at h
  · split at h
    · rename_i at_
      cases h
      exact .of_set at_ rfl rfl rfl rfl rfl
    · cases h
  · split at h
    · cases h
    · cases h
      exact .stay (fun _ ↦ rfl) (fun _ ↦ rfl) rfl

/-- A step of the destructor. -/
theorem moves_of_destructorStep {pc pc' : DestructorPc} (h : s.destructorStep pc = some (t, pc')) :
    Moves s t := by
  unfold destructorStep at h
  split at h
  · cases h
    exact .stay (fun _ ↦ rfl) (fun _ ↦ rfl) rfl
  · cases h
    exact s.moves_notifyAll
  · split at h
    · cases h
      exact .stay (fun _ ↦ rfl) (fun _ ↦ rfl) rfl
    · cases h
      exact .stay (fun _ ↦ rfl) (fun _ ↦ rfl) rfl
    · cases h
  · cases h
  · cases h

/-- `post_task` queues one. -/
theorem toBegin_emplace {task : Task} (h : s.emplace task = some t) (task' : Task) :
    t.toBegin task' = s.toBegin task' + [task].count task' := by
  unfold emplace at h
  split at h
  · cases h
    rw [toBegin_eq, toBegin_eq]
    change (s.tpTasks ++ [task]).count task' + s.tpPool.countP _ = _
    rw [List.count_append]
    omega
  · cases h

omit [DecidableEq Task] in
/-- `post_task` executes nothing. -/
theorem executed_emplace {task : Task} (h : s.emplace task = some t) :
    t.tpPool = s.tpPool ∧ t.finished = s.finished := by
  unfold emplace at h
  split at h
  · cases h
    exact ⟨rfl, rfl⟩
  · cases h

/-- When a worker is about to begin, fewer tasks are being executed than there are workers. -/
theorem length_lt_of_call {task : Task} (at_ : s.tpPool[w]? = some (.call task)) {l : List Task}
    (nodup : l.Nodup) (executed : ∀ task' ∈ l, 0 < s.inside task') :
    l.length < s.tpPool.length := by
  have hsubset : l ⊆ s.tpPool.filterMap WorkerPc.inside? := by
    intro task' hmem
    obtain ⟨pc, hpc, hinside⟩ := List.countP_pos_iff.mp (executed task' hmem)
    exact List.mem_filterMap.mpr ⟨pc, hpc, beq_iff_eq.mp hinside⟩
  have hle : l.length ≤ (s.tpPool.filterMap WorkerPc.inside?).length :=
    (nodup.subperm hsubset).length_le
  rw [List.length_filterMap_eq_countP] at hle
  have hlt : s.tpPool.countP (fun pc ↦ (pc.inside?).isSome) < s.tpPool.length :=
    List.countP_lt_length_iff.mpr ⟨_, List.mem_of_getElem? at_, rfl⟩
  omega

end Threadpool

end ConcurrentServer.Pool
