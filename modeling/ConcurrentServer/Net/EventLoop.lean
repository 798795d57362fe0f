import ConcurrentServer.Base.Run
import Mathlib.Logic.Function.Basic

/-!
# Event loop: tasks submitted from any thread

`src/net/event_loop.h:40–51`, `src/net/event_loop.cpp:27–85`. One thread runs `loop()`;
every thread may be inside any number of nested `add_task` and `quit` calls (an inline task
may itself submit). A step is one statement of one thread. `el_tid` is fixed when the loop
object is constructed; the thread that runs `loop()` is a parameter of the step function.
-/

namespace ConcurrentServer.Net
open ConcurrentServer.Base

/-- `std::thread::id`. -/
abbrev ThreadId := Nat

/-- A task with the thread that passed it to `add_task`. -/
structure Task where
  caller : ThreadId
  name : Nat
  deriving DecidableEq, Repr

/-- One execution of a task. -/
structure Execution where
  task : Task
  thread : ThreadId
  deriving DecidableEq, Repr

/-- `EventLoop`; `src/net/event_loop.h:42–51`. `evfd` is the counter of the eventfd. -/
structure EventLoop where
  elTid : ThreadId
  elQuit : Bool
  elTaskFuncs : List Task
  elDealingTaskFuncs : Bool
  evfd : Nat
  deriving DecidableEq, Repr

/-- A loop constructed by the given thread; `src/net/event_loop.cpp:13–21`. -/
def EventLoop.construct (ctor : ThreadId) : EventLoop := ⟨ctor, false, [], false, 0⟩

/-- `EventLoop::is_in_loop_thread`, asked by thread `t`; `src/net/event_loop.h:40`. -/
def EventLoop.isInLoopThread (el : EventLoop) (t : ThreadId) : Bool := el.elTid == t

/-- `EventLoop::evfd_wakeup`; `src/net/event_loop.cpp:27–33`. -/
def EventLoop.evfdWakeup (el : EventLoop) : EventLoop := { el with evfd := el.evfd + 1 }

/-- `EventLoop::evfd_read`; `src/net/event_loop.cpp:35–41`. Reading a zero counter fails and
changes nothing. -/
def EventLoop.evfdRead (el : EventLoop) : EventLoop := { el with evfd := 0 }

/-- Where a thread is inside one `add_task` or `quit` call. -/
inductive CallPc
  /-- `add_task`, before the first test of the thread. -/
  | entered (x : Task)
  /-- `add_task`, inside `cb()`. -/
  | inline (x : Task)
  /-- `add_task`, holding `el_mutex`. -/
  | push (x : Task)
  /-- `add_task`, before the second test. -/
  | tail
  /-- `quit`, before `el_quit = true`. -/
  | quit
  /-- `quit`, before the test of the thread. -/
  | quitTail
  /-- Before `evfd_wakeup()`. -/
  | wake
  deriving DecidableEq, Repr

/-- Where the running thread is inside `loop()`. -/
inductive LoopPc
  /-- `loop()` has not been called. -/
  | before
  /-- Before the test of `el_quit`. -/
  | test
  /-- Inside `epoll_wait`. -/
  | poll
  /-- Before the callback `evfd_read()`. -/
  | readEvfd
  /-- `execute_task_funcs`, before `el_dealing_task_funcs = true`. -/
  | deal
  /-- `execute_task_funcs`, before the swap under `el_mutex`. -/
  | swap
  /-- `execute_task_funcs`, with the functors still to be called. -/
  | batch (functors : List Task)
  /-- `loop()` has returned. -/
  | done
  deriving DecidableEq, Repr

/-- A loop object with the threads at work on it and the executions so far. -/
structure LoopSystem where
  el : EventLoop
  pc : LoopPc
  calls : ThreadId → List CallPc
  executed : List Execution

/-- A freshly constructed loop on which no thread is at work. -/
def LoopSystem.init (ctor : ThreadId) : LoopSystem :=
  ⟨EventLoop.construct ctor, .before, fun _ ↦ [], []⟩

/-- What can happen next. -/
inductive LoopAction
  /-- Thread `t` calls `add_task` with the task called `name`. -/
  | addTask (t : ThreadId) (name : Nat)
  /-- Thread `t` calls `quit`. -/
  | quit (t : ThreadId)
  /-- Thread `t` executes the next statement of its innermost call. -/
  | call (t : ThreadId)
  /-- The running thread executes the next statement of `loop()`. When `epoll_wait` returns,
  `ready` says whether the eventfd is among the reported descriptors. -/
  | loop (ready : Bool)
  deriving DecidableEq, Repr

/-- Replace the call stack of one thread. -/
def LoopSystem.setCalls (s : LoopSystem) (t : ThreadId) (stack : List CallPc) : LoopSystem :=
  { s with calls := Function.update s.calls t stack }

/-- A new call may start when the thread is in user code: it is in no call or inside an
inline task, and it is not blocked in `epoll_wait`. -/
def LoopSystem.mayCall (runner : ThreadId) (s : LoopSystem) (t : ThreadId) : Bool :=
  (t != runner || s.pc != .poll) &&
    match s.calls t with
    | [] => true
    | .inline _ :: _ => true
    | _ => false

/-- One statement of the innermost call of thread `t`; `src/net/event_loop.cpp:43–56,80–85`. -/
def LoopSystem.callStep (s : LoopSystem) (t : ThreadId) : Option LoopSystem :=
  match s.calls t with
  | [] => none
  | .entered x :: rest =>
    if s.el.isInLoopThread t then
      some { s.setCalls t (.inline x :: rest) with executed := s.executed ++ [⟨x, t⟩] }
    else some (s.setCalls t (.push x :: rest))
  | .inline _ :: rest => some (s.setCalls t (.tail :: rest))
  | .push x :: rest =>
    some { s.setCalls t (.tail :: rest) with
      el := { s.el with elTaskFuncs := s.el.elTaskFuncs ++ [x] } }
  | .tail :: rest =>
    if !s.el.isInLoopThread t || s.el.elDealingTaskFuncs then some (s.setCalls t (.wake :: rest))
    else some (s.setCalls t rest)
  | .quit :: rest =>
    some { s.setCalls t (.quitTail :: rest) with el := { s.el with elQuit := true } }
  | .quitTail :: rest =>
    if !s.el.isInLoopThread t then some (s.setCalls t (.wake :: rest))
    else some (s.setCalls t rest)
  | .wake :: rest => some { s.setCalls t rest with el := s.el.evfdWakeup }

/-- One statement of `loop()` on the thread `runner`; `src/net/event_loop.cpp:58–78`. -/
def LoopSystem.loopStep (runner : ThreadId) (s : LoopSystem) (ready : Bool) :
    Option LoopSystem :=
  match s.pc with
  | .before => some { s with pc := .test, el := { s.el with elQuit := false } }
  | .test => some { s with pc := if s.el.elQuit then .done else .poll }
  | .poll =>
    -- without the eventfd: the 20 s timeout, or other descriptors only
    if ready then if 0 < s.el.evfd then some { s with pc := .readEvfd } else none
    else some { s with pc := .deal }
  | .readEvfd => some { s with pc := .deal, el := s.el.evfdRead }
  | .deal => some { s with pc := .swap, el := { s.el with elDealingTaskFuncs := true } }
  | .swap =>
    some { s with pc := .batch s.el.elTaskFuncs, el := { s.el with elTaskFuncs := [] } }
  | .batch [] => some { s with pc := .test, el := { s.el with elDealingTaskFuncs := false } }
  | .batch (x :: rest) =>
    some { s with pc := .batch rest, executed := s.executed ++ [⟨x, runner⟩] }
  | .done => none

/-- The step function of a loop that is run by the thread `runner`. -/
def LoopSystem.step (runner : ThreadId) (s : LoopSystem) : LoopAction → Option LoopSystem
  | .addTask t name =>
    if s.mayCall runner t then some (s.setCalls t (.entered ⟨t, name⟩ :: s.calls t)) else none
  | .quit t => if s.mayCall runner t then some (s.setCalls t (.quit :: s.calls t)) else none
  | .call t => s.callStep t
  | .loop ready => if s.calls runner = [] then s.loopStep runner ready else none

/-! ### Which thread runs a task -/

/-- The invariant: calls belong to their threads, tasks on their way into the queue, in it or
in the running batch come from other threads than the constructor's, and an execution is
either inline on the constructor's thread or that of a queued task on the running thread. -/
structure LoopSystem.Confined (ctor runner : ThreadId) (s : LoopSystem) : Prop where
  elTid : s.el.elTid = ctor
  entered : ∀ t x, .entered x ∈ s.calls t → x.caller = t
  push : ∀ t x, .push x ∈ s.calls t → x.caller ≠ ctor
  queued : ∀ x ∈ s.el.elTaskFuncs, x.caller ≠ ctor
  batch : ∀ functors, s.pc = .batch functors → ∀ x ∈ functors, x.caller ≠ ctor
  executed : ∀ e ∈ s.executed,
    (e.task.caller = ctor ∧ e.thread = ctor) ∨ (e.task.caller ≠ ctor ∧ e.thread = runner)

namespace LoopSystem

variable {ctor runner : ThreadId} {s s' : LoopSystem}

/-- A fresh loop satisfies the invariant. -/
theorem confined_init : (LoopSystem.init ctor).Confined ctor runner := by
  constructor <;> simp [LoopSystem.init, EventLoop.construct]

/-- Membership in a stack after one stack has been replaced. -/
theorem mem_setCalls (t t' : ThreadId) (stack : List CallPc) (c : CallPc) :
    c ∈ (s.setCalls t stack).calls t' ↔
      (t' = t ∧ c ∈ stack) ∨ (t' ≠ t ∧ c ∈ s.calls t') := by
  by_cases h : t' = t
  · subst h; simp [setCalls]
  · simp [setCalls, h]

/-- Replacing a stack keeps the invariant when every carried task was carried before. -/
theorem Confined.setCalls (h : s.Confined ctor runner) (t : ThreadId) (stack : List CallPc)
    (entered : ∀ x, .entered x ∈ stack → x.caller = t)
    (push : ∀ x, .push x ∈ stack → x.caller ≠ ctor) :
    (s.setCalls t stack).Confined ctor runner := by
  refine { h with entered := ?_, push := ?_ }
  · intro t' x hx
    rcases (mem_setCalls t t' stack _).mp hx with ⟨rfl, hnew⟩ | ⟨-, hold⟩
    · exact entered x hnew
    · exact h.entered t' x hold
  · intro t' x hx
    rcases (mem_setCalls t t' stack _).mp hx with ⟨rfl, hnew⟩ | ⟨-, hold⟩
    · exact push x hnew
    · exact h.push t' x hold

/-- Moving the innermost call on to a position that carries no task keeps the invariant. -/
theorem Confined.advance (h : s.Confined ctor runner) {t : ThreadId} {c : CallPc}
    {rest : List CallPc} (hs : s.calls t = c :: rest) (top : List CallPc)
    (htop : ∀ x, .entered x ∉ top ∧ .push x ∉ top) :
    (s.setCalls t (top ++ rest)).Confined ctor runner := by
  apply h.setCalls
  · intro x hx
    rcases List.mem_append.mp hx with hx | hx
    · exact absurd hx (htop x).1
    · exact h.entered t x (by rw [hs]; exact List.mem_cons_of_mem c hx)
  · intro x hx
    rcases List.mem_append.mp hx with hx | hx
    · exact absurd hx (htop x).2
    · exact h.push t x (by rw [hs]; exact List.mem_cons_of_mem c hx)

/-- A statement of an `add_task` or `quit` call keeps the invariant. -/
theorem Confined.callStep (h : s.Confined ctor runner) {t : ThreadId}
    (hstep : s.callStep t = some s') : s'.Confined ctor runner := by
  unfold LoopSystem.callStep at hstep
  split at hstep
  · cases hstep
  · next x rest hs =>
    have hx : x.caller = t := h.entered t x (by rw [hs]; exact List.mem_cons_self)
    split at hstep
    · next hin =>
      -- inline: the caller is the thread that constructed the loop
      have ht : t = ctor := by
        rw [← h.elTid]
        exact (eq_of_beq hin).symm
      cases hstep
      refine { h.advance hs [.inline x] (by simp) with executed := ?_ }
      intro e he
      rcases List.mem_append.mp he with he | he
      · exact h.executed e he
      · cases List.mem_singleton.mp he
        exact Or.inl ⟨hx.trans ht, ht⟩
    · next hin =>
      have ht : t ≠ ctor := by
        intro ht
        exact hin (by rw [EventLoop.isInLoopThread, h.elTid, ht, beq_self_eq_true])
      cases hstep
      apply h.setCalls
      · intro y hy
        rcases List.mem_cons.mp hy with hy | hy
        · cases hy
        · exact h.entered t y (by rw [hs]; exact List.mem_cons_of_mem _ hy)
      · intro y hy
        rcases List.mem_cons.mp hy with hy | hy
        · cases hy
          rw [hx]
          exact ht
        · exact h.push t y (by rw [hs]; exact List.mem_cons_of_mem _ hy)
  · next rest hs =>
    cases hstep
    exact h.advance hs [.tail] (by simp)
  · next x rest hs =>
    have hx : x.caller ≠ ctor := h.push t x (by rw [hs]; exact List.mem_cons_self)
    cases hstep
    refine { h.advance hs [.tail] (by simp) with queued := ?_ }
    intro y hy
    rcases List.mem_append.mp hy with hy | hy
    · exact h.queued y hy
    · cases List.mem_singleton.mp hy
      exact hx
  · next rest hs =>
    split at hstep
    · cases hstep
      exact h.advance hs [.wake] (by simp)
    · cases hstep
      exact h.advance hs [] (by simp)
  · next rest hs =>
    cases hstep
    exact { h.advance hs [.quitTail] (by simp) with }
  · next rest hs =>
    split at hstep
    · cases hstep
      exact h.advance hs [.wake] (by simp)
    · cases hstep
      exact h.advance hs [] (by simp)
  · next rest hs =>
    cases hstep
    exact { h.advance hs [] (by simp) with }

/-- A statement of `loop()` keeps the invariant. -/
theorem Confined.loopStep (h : s.Confined ctor runner) {ready : Bool}
    (hstep : s.loopStep runner ready = some s') : s'.Confined ctor runner := by
  unfold LoopSystem.loopStep at hstep
  split at hstep
  · cases hstep
    exact { h with batch := by simp }
  · cases hstep
    refine { h with batch := ?_ }
    intro functors hpc
    dsimp only at hpc
    split at hpc <;> cases hpc
  · split at hstep
    · split at hstep
      · cases hstep
        exact { h with batch := by simp }
      · cases hstep
    · cases hstep
      exact { h with batch := by simp }
  · cases hstep
    exact { h with batch := by simp }
  · cases hstep
    exact { h with batch := by simp }
  · cases hstep
    refine { h with queued := by simp, batch := ?_ }
    intro functors hpc
    cases hpc
    exact h.queued
  · cases hstep
    exact { h with batch := by simp }
  · next x rest hpc =>
    have hfunctors := h.batch _ hpc
    cases hstep
    refine { h with batch := ?_, executed := ?_ }
    · intro functors hpc'
      cases hpc'
      exact fun y hy ↦ hfunctors y (List.mem_cons_of_mem x hy)
    · intro e he
      rcases List.mem_append.mp he with he | he
      · exact h.executed e he
      · cases List.mem_singleton.mp he
        exact Or.inr ⟨hfunctors x List.mem_cons_self, rfl⟩
  · cases hstep

/-- Every step keeps the invariant. -/
theorem Confined.step (h : s.Confined ctor runner) {a : LoopAction}
    (hstep : s.step runner a = some s') : s'.Confined ctor runner := by
  cases a with
  | addTask t name =>
    simp only [LoopSystem.step] at hstep
    split at hstep
    · cases hstep
      apply h.setCalls
      · intro x hx
        rcases List.mem_cons.mp hx with hx | hx
        · cases hx; rfl
        · exact h.entered t x hx
      · intro x hx
        rcases List.mem_cons.mp hx with hx | hx
        · cases hx
        · exact h.push t x hx
    · cases hstep
  | quit t =>
    simp only [LoopSystem.step] at hstep
    split at hstep
    · cases hstep
      apply h.setCalls
      · exact fun x hx ↦ h.entered t x (by simpa using hx)
      · exact fun x hx ↦ h.push t x (by simpa using hx)
    · cases hstep
  | call t => exact h.callStep hstep
  | loop ready =>
    simp only [LoopSystem.step] at hstep
    split at hstep
    · exact h.loopStep hstep
    · cases hstep

/-- The invariant holds in every run of a loop constructed by `ctor` and run by `runner`. -/
theorem confined_of_reach (h : Reach (LoopSystem.step runner) (LoopSystem.init ctor) s) :
    s.Confined ctor runner :=
  h.invariant confined_init fun _ _ _ hs _ hstep ↦ hs.step hstep

/-- In every run, a task that `add_task` has caused to be run was run by the thread that
executes `loop()` exactly when the caller of `add_task` was not the thread that constructed
the loop, or that thread is the one that executes `loop()`. -/
theorem task_runs_on_loop_thread_iff
    (h : Reach (LoopSystem.step runner) (LoopSystem.init ctor) s) (e : Execution)
    (he : e ∈ s.executed) : e.thread = runner ↔ (e.task.caller = ctor → ctor = runner) := by
  rcases (confined_of_reach h).executed e he with ⟨hc, ht⟩ | ⟨hc, ht⟩
  · simp [hc, ht]
  · simp [hc, ht]

end LoopSystem

/-! ### The loops of `TcpServer::start` -/

/-- Thread 0 executes `TcpServer::start` and the acceptor's loop, thread 1 is the pool worker
that runs the connection loop; the acceptor submits the connected task of a connection
(`src/net/tcp_server.cpp:49–53`, `src/net/acceptor.cpp:99`, `src/net/tcp_conn.cpp:26–28`). -/
def connectedTaskRun : List LoopAction :=
  [.loop false, .loop false, .addTask 0 0, .call 0]

/-- The same loop, with the connected task submitted by a third thread. -/
def foreignTaskRun : List LoopAction :=
  [.loop false, .loop false, .addTask 2 0, .call 2, .call 2, .call 2, .call 2,
    .loop true, .loop false, .loop false, .loop false, .loop false]

/-- The connected task runs on the acceptor's thread, not on the thread of the loop. -/
theorem connected_task_leaves_loop_thread :
    ¬ ∀ (ctor runner : ThreadId) (s : LoopSystem),
      Reach (LoopSystem.step runner) (LoopSystem.init ctor) s →
        ∀ e ∈ s.executed, e.thread = runner := by
  intro h
  obtain ⟨s, hrun, hmem⟩ : ∃ s,
      run (LoopSystem.step 1) (LoopSystem.init 0) connectedTaskRun = some s ∧
        (⟨⟨0, 0⟩, 0⟩ : Execution) ∈ s.executed := ⟨_, rfl, by decide⟩
  exact absurd (h 0 1 s (reach_of_run hrun) _ hmem) (by decide)

/-- A task of a third thread is queued and runs on the thread of the loop. -/
theorem foreign_task_on_loop_thread :
    ∃ s, run (LoopSystem.step 1) (LoopSystem.init 0) foreignTaskRun = some s ∧
      (⟨⟨2, 0⟩, 1⟩ : Execution) ∈ s.executed ∧
        ((1 : ThreadId) = 1 ↔ ((2 : ThreadId) = 0 → 0 = 1)) := by
  obtain ⟨s, hrun, hmem⟩ : ∃ s,
      run (LoopSystem.step 1) (LoopSystem.init 0) foreignTaskRun = some s ∧
        (⟨⟨2, 0⟩, 1⟩ : Execution) ∈ s.executed := ⟨_, rfl, by decide⟩
  exact ⟨s, hrun, hmem, LoopSystem.task_runs_on_loop_thread_iff (reach_of_run hrun) _ hmem⟩

end ConcurrentServer.Net
