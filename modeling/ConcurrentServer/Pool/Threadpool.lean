import ConcurrentServer.Base.Threads

/-!
# The thread pool

`src/threadpool/threadpool.h`, in the build without `THREADPOOL_AUTO_GROW`. A worker is the
place it is at in the loop of `add_thread`; a step is one statement of one thread, and the
predicate of the wait is tested, with `tp_lock` held, before every block. A blocked worker may
wake up at any time. `Task` is what `tp_tasks` holds.
-/

namespace ConcurrentServer.Pool
open ConcurrentServer.Base

/-- `THREADPOOL_MAX_NUM`. -/
def threadpoolMaxNum : Nat := 64

/-- Where a worker is; `src/threadpool/threadpool.h:77–95`. -/
inductive WorkerPc (Task : Type)
  /-- Before the test of `while (tp_run)`. -/
  | head
  /-- Before `tp_lock` is taken. -/
  | lock
  /-- Before the predicate of the wait, holding `tp_lock`. -/
  | pred
  /-- The predicate was false; before the block, holding `tp_lock`. -/
  | block
  /-- Blocked on `tp_task_cv`. -/
  | blocked (notified : Bool)
  /-- Before `if (!tp_run && tp_tasks.empty())`, holding `tp_lock`. -/
  | exitTest
  /-- Before the task is taken, holding `tp_lock`. -/
  | take
  /-- Before `tp_idl_tnum--`. -/
  | dec (task : Task)
  /-- Before `task()`. -/
  | call (task : Task)
  /-- Inside `task()`. -/
  | inside (task : Task)
  /-- Before `tp_idl_tnum++`. -/
  | inc
  /-- Returned. -/
  | done
  deriving DecidableEq, Repr

variable {Task : Type}

namespace WorkerPc

/-- A notification reaches a blocked worker. -/
def notify : WorkerPc Task → WorkerPc Task
  | .blocked _ => .blocked true
  | pc => pc

/-- Blocked, and no notification has been delivered. -/
def waiting : WorkerPc Task → Bool
  | .blocked false => true
  | _ => false

/-- The task that the worker has taken and not finished. -/
def task? : WorkerPc Task → Option Task
  | .dec task | .call task | .inside task => some task
  | _ => none

/-- Past the test of the loop's head, with a task still to be taken. -/
def ready : WorkerPc Task → Bool
  | .lock | .pred | .block | .blocked _ | .exitTest | .take => true
  | .head | .dec _ | .call _ | .inside _ | .inc | .done => false

@[simp] theorem ready_notify (pc : WorkerPc Task) : pc.notify.ready = pc.ready := by
  cases pc <;> rfl

@[simp] theorem task?_notify (pc : WorkerPc Task) : pc.notify.task? = pc.task? := by
  cases pc <;> rfl

end WorkerPc

/-- Where the destructor is. -/
inductive DestructorPc
  /-- Not called yet. -/
  | idle
  /-- Before `tp_run = false`. -/
  | stop
  /-- Before `notify_all`. -/
  | notify
  /-- In the loop, before or in the join of thread `k`. -/
  | join (k : Nat)
  /-- It has returned. -/
  | returned
  deriving DecidableEq, Repr

/-- `tp_run` has been cleared. -/
def DestructorPc.stopped : DestructorPc → Bool
  | .notify | .join _ | .returned => true
  | .idle | .stop => false

/-- `Threadpool`; `src/threadpool/threadpool.h:109–114`. `tpLock` is the worker that holds the
lock from one step to the next. -/
structure Threadpool (Task : Type) where
  tpPool : List (WorkerPc Task)
  tpTasks : List Task
  tpLock : Option Nat
  tpRun : Bool
  tpIdlTnum : Int
  /-- The tasks ever inserted, in order. -/
  inserted : List Task
  /-- The tasks ever taken, in order. -/
  taken : List Task
  /-- The tasks whose calls have returned, in order. -/
  finished : List Task
  deriving DecidableEq, Repr

namespace Threadpool

/-- The member initialisers. -/
def empty : Threadpool Task := ⟨[], [], none, true, 0, [], [], []⟩

/-- `add_thread`; `src/threadpool/threadpool.h:73–98`. -/
def addThread (s : Threadpool Task) (size : Nat) : Threadpool Task :=
  let added := min size (threadpoolMaxNum - s.tpPool.length)
  { s with
    tpPool := s.tpPool ++ List.replicate added .head
    tpIdlTnum := s.tpIdlTnum + added }

/-- The constructor; `none` when its assertion fails; `src/threadpool/threadpool.h:24–27`. -/
def new (size : Nat) : Option (Threadpool Task) :=
  if size ≤ threadpoolMaxNum then some (empty.addThread size) else none

/-- A pool of `n` workers that have not begun. -/
def ofSize (n : Nat) : Threadpool Task := ⟨List.replicate n .head, [], none, true, n, [], [], []⟩

/-- The constructor makes as many workers as it is asked for. -/
theorem new_eq_ofSize {size : Nat} {s : Threadpool Task} (h : new size = some s) :
    s = ofSize size := by
  unfold new at h
  split at h
  · rename_i hle
    cases h
    have hadded : min size threadpoolMaxNum = size := by omega
    simp [empty, addThread, ofSize, hadded]
  · cases h

/-- Worker `w` moves on. -/
def setWorker (s : Threadpool Task) (w : Nat) (pc : WorkerPc Task) : Threadpool Task :=
  { s with tpPool := s.tpPool.set w pc }

/-- The insertion of `post_task`; `src/threadpool/threadpool.h:49–54`. -/
def emplace (s : Threadpool Task) (task : Task) : Option (Threadpool Task) :=
  if s.tpLock = none then
    some { s with tpTasks := s.tpTasks ++ [task], inserted := s.inserted ++ [task] }
  else none

/-- `tp_task_cv.notify_one()`: one waiting worker is notified, if there is any. -/
def notifyOne (s : Threadpool Task) : Option Nat → Option (Threadpool Task)
  | some w =>
    match s.tpPool[w]? with
    | some (.blocked false) => some (s.setWorker w (.blocked true))
    | _ => none
  | none => if s.tpPool.any WorkerPc.waiting then none else some s

/-- `tp_task_cv.notify_all()`. -/
def notifyAll (s : Threadpool Task) : Threadpool Task :=
  { s with tpPool := s.tpPool.map WorkerPc.notify }

/-- The next statement of worker `w`; `src/threadpool/threadpool.h:77–95`. -/
def workerStep (s : Threadpool Task) (w : Nat) : Option (Threadpool Task) :=
  match s.tpPool[w]? with
  | none | some .done => none
  | some .head => some (s.setWorker w (if s.tpRun then .lock else .done))
  | some .lock | some (.blocked _) =>
    if s.tpLock = none then some { s.setWorker w .pred with tpLock := some w } else none
  | some .pred =>
    some (s.setWorker w (if !s.tpRun || !s.tpTasks.isEmpty then .exitTest else .block))
  | some .block => some { s.setWorker w (.blocked false) with tpLock := none }
  | some .exitTest =>
    if !s.tpRun && s.tpTasks.isEmpty then some { s.setWorker w .done with tpLock := none }
    else some (s.setWorker w .take)
  | some .take =>
    match s.tpTasks with
    | [] => none
    | task :: rest =>
      some { s.setWorker w (.dec task) with
        tpTasks := rest
        tpLock := none
        taken := s.taken ++ [task] }
  | some (.dec task) => some { s.setWorker w (.call task) with tpIdlTnum := s.tpIdlTnum - 1 }
  | some (.call task) => some (s.setWorker w (.inside task))
  | some (.inside task) => some { s.setWorker w .inc with finished := s.finished ++ [task] }
  | some .inc => some { s.setWorker w .head with tpIdlTnum := s.tpIdlTnum + 1 }

/-- The next statement of `~Threadpool`; `src/threadpool/threadpool.h:28–36`. -/
def destructorStep (s : Threadpool Task) :
    DestructorPc → Option (Threadpool Task × DestructorPc)
  | .stop => some ({ s with tpRun := false }, .notify)
  | .notify => some (s.notifyAll, .join 0)
  | .join k =>
    match s.tpPool[k]? with
    | none => some (s, .returned)
    | some .done => some (s, .join (k + 1))
    | some _ => none
  | .idle | .returned => none

/-- What a worker's step from `pc` to `pc'` does to the tasks. -/
inductive Move (s t : Threadpool Task) (pc pc' : WorkerPc Task) : Prop
  /-- It goes on with what it has. -/
  | stay (task : pc'.task? = pc.task?) (tasks : t.tpTasks = s.tpTasks)
    (taken : t.taken = s.taken) (finished : t.finished = s.finished)
    (enters : pc'.ready = true → pc.ready = true ∨ s.tpRun = true)
    (leaves : pc.ready = true → pc'.ready = true ∨ s.tpTasks = [])
  /-- It takes the task in front. -/
  | take (task : Task) (before : pc = .take) (after : pc' = .dec task)
    (tasks : s.tpTasks = task :: t.tpTasks) (taken : t.taken = s.taken ++ [task])
    (finished : t.finished = s.finished)
  /-- Its task returns. -/
  | finish (task : Task) (before : pc = .inside task) (after : pc' = .inc)
    (tasks : t.tpTasks = s.tpTasks) (taken : t.taken = s.taken)
    (finished : t.finished = s.finished ++ [task])

/-- A worker's step. -/
structure WorkerStep (s : Threadpool Task) (w : Nat) (t : Threadpool Task)
    (pc pc' : WorkerPc Task) : Prop where
  at_ : s.tpPool[w]? = some pc
  pool : t.tpPool = s.tpPool.set w pc'
  run : t.tpRun = s.tpRun
  inserted : t.inserted = s.inserted
  alive : pc ≠ .done
  move : Move s t pc pc'

/-- Every step of a worker is one of these. -/
theorem workerStep_inversion {s t : Threadpool Task} {w : Nat} (h : s.workerStep w = some t) :
    ∃ pc pc', WorkerStep s w t pc pc' := by
  unfold workerStep at h
  split at h
  · cases h
  · cases h
  · rename_i at_
    cases h
    refine ⟨_, _, at_, rfl, rfl, rfl, by simp, ?_⟩
    cases hrun : s.tpRun
    · exact .stay rfl rfl rfl rfl (by simp [WorkerPc.ready]) (by simp [WorkerPc.ready])
    · exact .stay rfl rfl rfl rfl (fun _ ↦ Or.inr hrun) (by simp [WorkerPc.ready])
  · rename_i at_
    split at h
    · cases h
      exact ⟨_, _, at_, rfl, rfl, rfl, by simp,
        .stay rfl rfl rfl rfl (fun _ ↦ Or.inl rfl) (fun _ ↦ Or.inl rfl)⟩
    · cases h
  · rename_i at_
    split at h
    · cases h
      exact ⟨_, _, at_, rfl, rfl, rfl, by simp,
        .stay rfl rfl rfl rfl (fun _ ↦ Or.inl rfl) (fun _ ↦ Or.inl rfl)⟩
    · cases h
  · rename_i at_
    cases h
    refine ⟨_, _, at_, rfl, rfl, rfl, by simp, ?_⟩
    split
    · exact .stay rfl rfl rfl rfl (fun _ ↦ Or.inl rfl) (fun _ ↦ Or.inl rfl)
    · exact .stay rfl rfl rfl rfl (fun _ ↦ Or.inl rfl) (fun _ ↦ Or.inl rfl)
  · rename_i at_
    cases h
    exact ⟨_, _, at_, rfl, rfl, rfl, by simp,
      .stay rfl rfl rfl rfl (fun _ ↦ Or.inl rfl) (fun _ ↦ Or.inl rfl)⟩
  · rename_i at_
    split at h
    · rename_i hexit
      cases h
      refine ⟨_, _, at_, rfl, rfl, rfl, by simp, .stay rfl rfl rfl rfl ?_ fun _ ↦ Or.inr ?_⟩
      · simp [WorkerPc.ready]
      · rw [Bool.and_eq_true] at hexit
        exact List.isEmpty_iff.mp hexit.2
    · cases h
      exact ⟨_, _, at_, rfl, rfl, rfl, by simp,
        .stay rfl rfl rfl rfl (fun _ ↦ Or.inl rfl) (fun _ ↦ Or.inl rfl)⟩
  · rename_i at_
    split at h
    · cases h
    · rename_i task rest htasks
      cases h
      exact ⟨_, _, at_, rfl, rfl, rfl, by simp, .take task rfl rfl htasks rfl rfl⟩
  · rename_i at_
    cases h
    exact ⟨_, _, at_, rfl, rfl, rfl, by simp,
      .stay rfl rfl rfl rfl (by simp [WorkerPc.ready]) (by simp [WorkerPc.ready])⟩
  · rename_i at_
    cases h
    exact ⟨_, _, at_, rfl, rfl, rfl, by simp,
      .stay rfl rfl rfl rfl (by simp [WorkerPc.ready]) (by simp [WorkerPc.ready])⟩
  · rename_i task at_
    cases h
    exact ⟨_, _, at_, rfl, rfl, rfl, by simp, .finish task rfl rfl rfl rfl rfl⟩
  · rename_i at_
    cases h
    exact ⟨_, _, at_, rfl, rfl, rfl, by simp,
      .stay rfl rfl rfl rfl (by simp [WorkerPc.ready]) (by simp [WorkerPc.ready])⟩

/-- A notification leaves all but the mark of blocked workers. -/
structure Notified (s t : Threadpool Task) : Prop where
  same : t = { s with tpPool := t.tpPool }
  ready : t.tpPool.countP WorkerPc.ready = s.tpPool.countP WorkerPc.ready
  held : ∀ p : Option Task → Bool,
    t.tpPool.countP (fun pc ↦ p pc.task?) = s.tpPool.countP (fun pc ↦ p pc.task?)
  done : ∀ w : Nat, s.tpPool[w]? = some .done → t.tpPool[w]? = some .done

/-- `notify_all`. -/
theorem notified_notifyAll (s : Threadpool Task) : Notified s s.notifyAll := by
  constructor
  · rfl
  · show (s.tpPool.map WorkerPc.notify).countP WorkerPc.ready = _
    rw [List.countP_map]
    congr 1
    ext pc
    exact WorkerPc.ready_notify pc
  · intro p
    show (s.tpPool.map WorkerPc.notify).countP _ = _
    rw [List.countP_map]
    congr 1
    ext pc
    show p pc.notify.task? = p pc.task?
    rw [WorkerPc.task?_notify]
  · intro w hdone
    show (s.tpPool.map WorkerPc.notify)[w]? = some .done
    rw [List.getElem?_map, hdone]
    rfl

/-- `notify_one`. -/
theorem notified_notifyOne {s t : Threadpool Task} {who : Option Nat}
    (h : s.notifyOne who = some t) : Notified s t := by
  unfold notifyOne at h
  split at h
  · rename_i w
    split at h
    · rename_i at_
      cases h
      constructor
      · rfl
      · exact countP_setThread_eq _ at_ rfl
      · intro p
        exact countP_setThread_eq _ at_ rfl
      · intro w' hdone
        show (s.tpPool.set w (.blocked true))[w']? = some .done
        rw [getElem?_setThread at_, if_neg]
        · exact hdone
        · intro hw
          rw [hw, at_] at hdone
          cases hdone
    · cases h
  · split at h
    · cases h
    · cases h
      exact ⟨rfl, rfl, fun _ ↦ rfl, fun _ hdone ↦ hdone⟩

/-! ### Executions of a task -/

section Executions

variable [DecidableEq Task]

/-- How often `task` is queued, in the hands of a worker or finished. -/
def accepted (s : Threadpool Task) (task : Task) : Nat :=
  s.tpTasks.count task + s.tpPool.countP (fun pc ↦ pc.task? == some task) + s.finished.count task

/-- How many executions of `task` have begun. -/
def begun (s : Threadpool Task) (task : Task) : Nat :=
  s.finished.count task + s.tpPool.countP fun pc ↦ pc == .inside task

/-- How many executions of `task` are to begin. -/
def toBegin (s : Threadpool Task) (task : Task) : Nat :=
  s.tpTasks.count task + s.tpPool.countP fun pc ↦ pc == .dec task || pc == .call task

/-- A worker holds a task before it calls it or inside it. -/
theorem countP_task (pool : List (WorkerPc Task)) (task : Task) :
    pool.countP (fun pc ↦ pc == .inside task) +
      pool.countP (fun pc ↦ pc == .dec task || pc == .call task) =
        pool.countP fun pc ↦ pc.task? == some task := by
  induction pool with
  | nil => rfl
  | cons pc rest ih =>
    have hone : (if pc == .inside task then 1 else 0) +
        (if pc == .dec task || pc == .call task then 1 else 0) =
          if pc.task? == some task then 1 else 0 := by
      cases pc <;> simp [WorkerPc.task?]
    rw [List.countP_cons, List.countP_cons, List.countP_cons, ← ih, ← hone]
    omega

/-- What has been accepted has begun or is to begin. -/
theorem begun_add_toBegin (s : Threadpool Task) (task : Task) :
    s.begun task + s.toBegin task = s.accepted task := by
  have hcount := countP_task s.tpPool task
  unfold begun toBegin accepted
  omega

variable {s t : Threadpool Task}

/-- An insertion. -/
theorem accepted_emplace {new : Task} (h : s.emplace new = some t) (task : Task) :
    t.accepted task = s.accepted task + [new].count task := by
  unfold emplace at h
  split at h
  · cases h
    show (s.tpTasks ++ [new]).count task + s.tpPool.countP (fun pc ↦ pc.task? == some task) +
      s.finished.count task = _
    rw [List.count_append]
    unfold accepted
    omega
  · cases h

/-- A notification. -/
theorem Notified.accepted (h : Notified s t) (task : Task) : t.accepted task = s.accepted task := by
  have hheld := h.held (· == some task)
  have hsame := h.same
  unfold Threadpool.accepted
  rw [hheld, hsame]

/-- A step of a worker. -/
theorem accepted_workerStep {w : Nat} (h : s.workerStep w = some t) (task : Task) :
    t.accepted task = s.accepted task := by
  obtain ⟨pc, pc', hw⟩ := workerStep_inversion h
  have hcount := countP_setThread (fun pc ↦ pc.task? == some task) hw.at_ pc'
  unfold accepted
  rw [hw.pool]
  cases hw.move with
  | stay same tasks taken finished enters leaves =>
    rw [tasks, finished]
    rw [same] at hcount
    omega
  | take first before after tasks taken finished =>
    have hpc : (pc.task? == some task) = false := by rw [before]; rfl
    have hpc' : (pc'.task? == some task) = (first == task) := by rw [after]; rfl
    rw [finished, tasks, List.count_cons]
    simp only [hpc, hpc', Bool.false_eq_true, if_false] at hcount
    omega
  | finish last before after tasks taken finished =>
    have hpc : (pc.task? == some task) = (last == task) := by rw [before]; rfl
    have hpc' : (pc'.task? == some task) = false := by rw [after]; rfl
    rw [finished, tasks, List.count_append, List.count_singleton]
    simp only [hpc, hpc', Bool.false_eq_true, if_false] at hcount
    omega

/-- A step of the destructor. -/
theorem accepted_destructorStep {pc pc' : DestructorPc} (h : s.destructorStep pc = some (t, pc'))
    (task : Task) : t.accepted task = s.accepted task := by
  unfold destructorStep at h
  split at h
  · cases h
    rfl
  · cases h
    exact (notified_notifyAll s).accepted task
  · split at h <;> cases h <;> rfl
  · cases h
  · cases h

/-! ### Conservation -/

/-- Tasks are taken in the order in which they were inserted, and what has been taken is in the
hands of a worker or finished. -/
structure Conserved (s : Threadpool Task) : Prop where
  queued : s.inserted = s.taken ++ s.tpTasks
  held : ∀ task, s.taken.count task =
    s.tpPool.countP (fun pc ↦ pc.task? == some task) + s.finished.count task

/-- Workers that have not begun. -/
theorem conserved_ofSize (n : Nat) : (ofSize n : Threadpool Task).Conserved := by
  constructor
  · rfl
  · intro task
    show 0 = (List.replicate n WorkerPc.head).countP (fun pc ↦ pc.task? == some task) + 0
    rw [List.countP_replicate]
    rfl

/-- What was inserted is queued, in the hands of a worker or finished. -/
theorem Conserved.accepted (h : s.Conserved) (task : Task) :
    s.accepted task = s.inserted.count task := by
  have hheld := h.held task
  rw [h.queued, List.count_append]
  unfold Threadpool.accepted
  omega

/-- An insertion. -/
theorem Conserved.emplace (h : s.Conserved) {new : Task} (ht : s.emplace new = some t) :
    t.Conserved := by
  unfold Threadpool.emplace at ht
  split at ht
  · cases ht
    refine ⟨?_, h.held⟩
    show s.inserted ++ [new] = s.taken ++ (s.tpTasks ++ [new])
    rw [h.queued, List.append_assoc]
  · cases ht

/-- A notification. -/
theorem Conserved.notified (h : s.Conserved) (hn : s.Notified t) : t.Conserved := by
  have hsame := hn.same
  constructor
  · rw [hsame]
    exact h.queued
  · intro task
    rw [hn.held (· == some task), hsame]
    exact h.held task

/-- A step of a worker. -/
theorem Conserved.workerStep (h : s.Conserved) {w : Nat} {pc pc' : WorkerPc Task}
    (hw : s.WorkerStep w t pc pc') : t.Conserved := by
  constructor
  · rw [hw.inserted, h.queued]
    cases hw.move with
    | stay task tasks taken finished enters leaves => rw [tasks, taken]
    | take task before after tasks taken finished =>
      rw [tasks, taken, List.append_assoc]
      rfl
    | finish task before after tasks taken finished => rw [tasks, taken]
  · intro task
    have hcount := countP_setThread (fun pc ↦ pc.task? == some task) hw.at_ pc'
    have hold := h.held task
    rw [hw.pool]
    cases hw.move with
    | stay same tasks taken finished enters leaves =>
      rw [taken, finished]
      rw [same] at hcount
      omega
    | take first before after tasks taken finished =>
      rw [taken, finished, List.count_append, List.count_singleton]
      have hpc : (pc.task? == some task) = false := by rw [before]; rfl
      have hpc' : (pc'.task? == some task) = (first == task) := by rw [after]; rfl
      simp only [hpc, hpc', Bool.false_eq_true, if_false] at hcount
      omega
    | finish last before after tasks taken finished =>
      rw [taken, finished, List.count_append, List.count_singleton]
      have hpc : (pc.task? == some task) = (last == task) := by rw [before]; rfl
      have hpc' : (pc'.task? == some task) = false := by rw [after]; rfl
      simp only [hpc, hpc', Bool.false_eq_true, if_false] at hcount
      omega

/-- A step of the destructor. -/
theorem Conserved.destructorStep (h : s.Conserved) {pc pc' : DestructorPc}
    (hstep : s.destructorStep pc = some (t, pc')) : t.Conserved := by
  unfold Threadpool.destructorStep at hstep
  split at hstep
  · cases hstep
    exact ⟨h.queued, h.held⟩
  · cases hstep
    exact h.notified s.notified_notifyAll
  · split at hstep <;> cases hstep <;> exact h
  · cases hstep
  · cases hstep

end Executions

end Threadpool

end ConcurrentServer.Pool
